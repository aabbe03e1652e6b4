import CryptoMarket.Replay.HistoryNet
import CryptoMarket.Replay.Quiescence

/-!
# The history tasks at rest

The server's own steps, now with those of the history tasks. Clients read what they are sent, or
are gone.

* `history_ends`: they come to an end from every reachable state: a request names days from 0 on,
  so the count of a task that wraps around is below its end.
* `history_comes_to_rest`: where none is left every task is over, or there is a circular wait.
* `history_answered`: at rest the client of an open session has got all that its history commands
  replay.
-/

namespace CryptoMarket.Replay

/-- The steps that the server takes by itself, its history tasks included. -/
def HistoryLabel.Own : HistoryLabel → Prop
  | .net l => l.Own
  | _ => True

/-- The server's own steps. -/
def OwnHistoryStep (x : Crates) (checks : Bool) : HistoryNet → HistoryLabel → HistoryNet → Prop :=
  Guarded (HistoryStep x checks) fun _ hl => hl.Own

/-- The task has ended or panicked. -/
def HistoryAt.Over : HistoryAt → Prop
  | .done | .panicked | .gone => True
  | _ => False

variable {x : Crates} {checks : Bool} {s s' : HistoryNet} {hl : HistoryLabel} {ls : List HistoryLabel}
  {log : List NetEvent} {n n' : Net} {l : Label} {i k N : ℕ} {t : HistoryTask}

/-! ## Progress -/

theorem historyNext_of_not_over {c : HistoryCommand} {p : HistoryAt} (h : ¬ p.Over) :
    ∃ ev p', historyNext x checks c p = some (ev, p') := by
  cases p with
  | day i args =>
    cases args with
    | nil => exact ⟨_, _, rfl⟩
    | cons arg args => by_cases hle : c.stop ≤ i <;> simp [historyNext, hle]
  | records i arg left args => cases left <;> exact ⟨_, _, rfl⟩
  | missing i arg args => exact ⟨_, _, rfl⟩
  | done => exact absurd trivial h
  | panicked => exact absurd trivial h
  | gone => exact absurd trivial h

theorem not_over_of_next {c : HistoryCommand} {p p' : HistoryAt} {ev : Option HistoryEvent}
    (h : historyNext x checks c p = some (ev, p')) : ¬ p.Over := by
  intro hover
  cases p with
  | done => cases h
  | panicked => cases h
  | gone => cases h
  | _ => exact hover

/-- **Progress.** The server can go on, or nothing is under way and no history task is left, or
there is a circular wait. -/
theorem history_progress (hok : HistoryOK x checks ls s)
    (hno : ∀ hl s', ¬ OwnHistoryStep x checks s hl s') :
    (s.net.Quiet ∧ ∀ t ∈ s.tasks, t.point.Over) ∨ s.net.CircularWait := by
  have hst : ∀ {hl s'}, HistoryStep x checks s hl s' → ¬ hl.Own := fun hst hown => hno _ _ ⟨hst, hown⟩
  have hnet : ∀ l n', ¬ OwnStep x s.net l n' := by
    rintro l n' ⟨hstep, hown⟩
    refine hst (HistoryStep.net ?_ hstep) hown
    cases l with
    | history i msg => exact absurd hown id
    | _ => exact id
  refine (progress hnet).imp_left fun hquiet => ⟨hquiet, fun t ht => ?_⟩
  by_contra hover
  obtain ⟨k, hk⟩ := List.getElem?_of_mem ht
  obtain ⟨ev, p, hnext⟩ : ∃ ev p, historyNext x checks t.command t.point = some (ev, p) :=
    historyNext_of_not_over hover
  cases hmsg : ev.bind HistoryEvent.msg with
  | none => exact hst (HistoryStep.quiet hk hnext hmsg) trivial
  | some msg =>
    obtain rfl : ev = some (.send msg) := by
      cases ev with
      | none => cases hmsg
      | some e =>
        cases e with
        | opens symbol day => cases hmsg
        | send m => rw [Option.some.inj hmsg]
    by_cases hopen : (s.net.session t.session).IsOpen
    · -- the queue of a quiet session is empty
      have hempty := (hquiet.session t.session).rxJson hopen
      have hroom : (s.net.session t.session).rxJson.length < jsonCap := by
        rw [hempty]
        exact Nat.succ_pos _
      exact hst (HistoryStep.send hk hnext (Step.history (hok.placed t ht).spawned hopen hroom)) trivial
    · exact hst (HistoryStep.fail hk hnext hopen) trivial

/-- Where nothing is under way and no task is left there is no own step. -/
theorem history_no_step (hquiet : s.net.Quiet) (hover : ∀ t ∈ s.tasks, t.point.Over) :
    ¬ OwnHistoryStep x checks s hl s' := by
  rintro ⟨hst, hown⟩
  cases hst with
  | net _ hst => exact hquiet.no_step ⟨hst, hown⟩
  | quiet ht hnext _ => exact not_over_of_next hnext (hover _ (List.mem_of_getElem? ht))
  | send ht hnext _ => exact not_over_of_next hnext (hover _ (List.mem_of_getElem? ht))
  | fail ht hnext _ => exact not_over_of_next hnext (hover _ (List.mem_of_getElem? ht))

/-! ## Ends -/

/-- The steps that the tasks have left, at most. -/
def tasksLeft (x : Crates) (checks : Bool) : List HistoryTask → ℕ
  | [] => 0
  | t :: ts => t.point.left x checks t.command + tasksLeft x checks ts

theorem tasksLeft_set : ∀ {ts : List HistoryTask} {k : ℕ} {t u : HistoryTask}, ts[k]? = some t →
    u.point.left x checks u.command < t.point.left x checks t.command →
    tasksLeft x checks (ts.set k u) < tasksLeft x checks ts := by
  intro ts
  induction ts with
  | nil => intro k t u ht _; simp at ht
  | cons a ts ih =>
    intro k t u ht hlt
    cases k with
    | zero =>
      obtain rfl : a = t := by simpa using ht
      rw [List.set_cons_zero, tasksLeft, tasksLeft]
      omega
    | succ k =>
      have hrest := ih (u := u) (by simpa using ht) hlt
      rw [List.set_cons_succ, tasksLeft, tasksLeft]
      omega

/-- The requests are for days from 0 on. -/
theorem stop_of_commanded {c : HistoryCommand} (hc : c ∈ commanded x ls i) : 0 ≤ c.stop := by
  obtain ⟨l, -, hl⟩ := List.mem_flatMap.1 hc
  cases l with
  | text j json =>
    by_cases hj : j = i
    · exact command_jsonHandle (by simpa [Label.ops, hj] using hl)
    · simp [Label.ops, hj] at hl
  | _ => cases hl

theorem HistoryOK.stop (hok : HistoryOK x checks ls s) (ht : t ∈ s.tasks) : i64Min < t.command.stop := by
  have horigin : (t.session, t.command) ∈ s.origins := List.mem_map_of_mem ht
  have hcommand : t.command ∈ s.commands t.session :=
    List.mem_filterMap.2 ⟨_, horigin, if_pos rfl⟩
  have hasked : t.command ∈ commanded x ls t.session := by
    rw [← hok.commands]
    exact List.mem_append_left _ hcommand
  exact Int.lt_of_lt_of_le (by decide) (stop_of_commanded hasked)

/-- What the server has left to do: first what leads to sends of the hub and to tasks; then the
steps of the tasks; then the sends of the hub and the items in the JSON queues. -/
def HistoryNet.load (x : Crates) (checks : Bool) (N : ℕ) (s : HistoryNet) : ℕ ×ₗ ℕ ×ₗ ℕ :=
  toLex ((ofLex (s.net.load N)).1, toLex (tasksLeft x checks s.tasks, (ofLex (s.net.load N)).2))

/-- A step of the net that leaves less to lead to sends. -/
theorem history_load_lt {a b d a' b' d' : ℕ} (h : a' < a ∨ a' = a ∧ (b' < b ∨ b' = b ∧ d' < d)) :
    (toLex (a', toLex (b', d')) : ℕ ×ₗ ℕ ×ₗ ℕ) < toLex (a, toLex (b, d)) := by
  rw [Prod.Lex.toLex_lt_toLex]
  refine h.imp_right fun ⟨ha, hrest⟩ => ⟨ha, ?_⟩
  rw [Prod.Lex.toLex_lt_toLex]
  exact hrest

/-- The step that spawns a task leaves the sends alone. -/
theorem sends_of_spawns (hn : n.Below N) (hst : Step x n l n') (hspawns : n.spawns l ≠ []) :
    (ofLex (n'.load N)).2 = (ofLex (n.load N)).2 := by
  cases hst with
  | @spawn i start stop args ops ok hp =>
    have hi : i < N := hn.lt (by simp [hp])
    have hqueued := Nat.add_right_cancel (queued_set n hi ⟨.handling ops ok, (n.session i).rxJson, true⟩)
    exact congrArg (2 * n.sending.length + ·) hqueued
  | sendAction hp _ => exact absurd (by simp [Net.spawns, Net.does, hp, Phase.ops, Op.command]) hspawns
  | reply hp _ => exact absurd (by simp [Net.spawns, Net.does, hp, Phase.ops, Op.command]) hspawns
  | _ => exact absurd rfl hspawns

/-- **An own step lowers the load**, and nobody connects. -/
theorem history_load_step (hok : HistoryOK x checks ls s) (hn : s.net.Below N)
    (hst : OwnHistoryStep x checks s hl s') :
    s'.net.Below N ∧ s'.load x checks N < s.load x checks N := by
  obtain ⟨hst, hown⟩ := hst
  cases hst with
  | @net l n _ hst =>
    obtain ⟨hbelow, hlt⟩ := load_step hn ⟨hst, hown⟩
    refine ⟨hbelow, history_load_lt ?_⟩
    rcases Prod.Lex.lt_iff.1 hlt with hwork | ⟨hwork, hsends⟩
    · exact Or.inl hwork
    · -- the step spawns nothing
      have hnone : s.net.spawns l = [] := by
        by_contra hspawns
        exact absurd (sends_of_spawns hn hst hspawns) (Nat.ne_of_lt hsends)
      refine Or.inr ⟨hwork, Or.inr ⟨?_, hsends⟩⟩
      rw [hnone, List.append_nil]
  | @quiet k t ev p ht hnext hev =>
    have hleft := left_next hnext (hok.stop (List.mem_of_getElem? ht))
    exact ⟨hn, history_load_lt (Or.inr ⟨rfl, Or.inl (tasksLeft_set ht hleft)⟩)⟩
  | @send k t msg p n ht hnext hst =>
    have hleft := left_next hnext (hok.stop (List.mem_of_getElem? ht))
    cases hst with
    | history hsp hopen hlt =>
      have hi : t.session < N := hn.lt hopen.1
      have hwork : (s.net.pushJson t.session msg).work N = s.net.work N := work_pushJson s.net hi msg
      refine ⟨hn.set hi _, history_load_lt (Or.inr ⟨?_, Or.inl (tasksLeft_set ht hleft)⟩)⟩
      show 2 * (s.net.pushJson t.session msg).work N + _ + _ = 2 * s.net.work N + _ + _
      rw [hwork]
      rfl
  | @fail k t msg p ht hnext ho =>
    have hleft := left_next hnext (hok.stop (List.mem_of_getElem? ht))
    have hgone : (t.goto .gone).point.left x checks t.command < t.point.left x checks t.command :=
      Nat.lt_of_le_of_lt (Nat.zero_le _) hleft
    exact ⟨hn, history_load_lt (Or.inr ⟨rfl, Or.inl (tasksLeft_set ht hgone)⟩)⟩

/-- **The server's own steps end**, those of its history tasks included. -/
theorem history_ends (h : HistoryRuns x checks ls log s) : Ends (OwnHistoryStep x checks) s := by
  obtain ⟨N, hN⟩ := finite_run (historyNet_run h).of_logged
  refine Ends.of_rank (P := fun s => s.net.Below N ∧ ∃ ls, HistoryOK x checks ls s)
    (HistoryNet.load x checks N) ?_ ?_ ⟨hN, ls, history_run h⟩
  · rintro s hl t ⟨hn, ls, hok⟩ hst
    exact ⟨(history_load_step hok hn hst).1, _, historyOK_step hok hst.1⟩
  · rintro s hl t ⟨hn, ls, hok⟩ hst
    exact (history_load_step hok hn hst).2

/-- An own step keeps the books. -/
theorem historyOK_own {ms : List HistoryLabel} (hok : HistoryOK x checks ls s)
    (h : Run (OwnHistoryStep x checks) s ms s') : HistoryOK x checks (ls ++ ms) s' := by
  induction h with
  | nil => rwa [List.append_nil]
  | snoc _ hst ih =>
    rw [← List.append_assoc]
    exact historyOK_step ih hst.1

/-- **The server comes to rest with its history tasks.** From every reachable state the server's own
steps and those of its history tasks come to an end, whatever their order; and where none is left,
nothing is under way and every task is over, or there is a circular wait. -/
theorem history_comes_to_rest (h : HistoryRuns x checks ls log s) :
    Ends (OwnHistoryStep x checks) s ∧ ∀ ms s', Run (OwnHistoryStep x checks) s ms s' →
      (∀ hl s'', ¬ OwnHistoryStep x checks s' hl s'') →
        (s'.net.Quiet ∧ ∀ t ∈ s'.tasks, t.point.Over) ∨ s'.net.CircularWait :=
  ⟨history_ends h, fun _ _ hrun hno => history_progress (historyOK_own (history_run h) hrun) hno⟩

theorem history_comes_to_rest_replay :
    Ends (OwnHistoryStep replayCrates true) (replayAt [] (.day 6 [btcTrade])) ∧
    ∀ ms s', Run (OwnHistoryStep replayCrates true) (replayAt [] (.day 6 [btcTrade])) ms s' →
      (∀ hl s'', ¬ OwnHistoryStep replayCrates true s' hl s'') →
        (s'.net.Quiet ∧ ∀ t ∈ s'.tasks, t.point.Over) ∨ s'.net.CircularWait :=
  history_comes_to_rest replay_spawned

/-! ## At rest -/

/-- A task that is over, and not for want of a receiver, has done all that its command asks for. -/
theorem HistoryOK.whole (hok : HistoryOK x checks ls s) (ht : s.tasks[k]? = some t) (hover : t.point.Over)
    (hgone : t.point ≠ .gone) : ∃ out, out ≠ .running ∧ ∃ N, ∀ fuel, N ≤ fuel →
      historyHandle x checks fuel t.command.start t.command.stop t.command.args = (eventsOf ls k, out) := by
  obtain ⟨N, hN⟩ := hok.replays ht
  cases hp : t.point with
  | done => exact ⟨.done, by simp, N, fun fuel hfuel => (hN fuel hfuel).2.1 hp⟩
  | panicked => exact ⟨.panicked, by simp, N, fun fuel hfuel => (hN fuel hfuel).2.2 hp⟩
  | gone => exact absurd hp hgone
  | day i args => rw [hp] at hover; exact hover.elim
  | records i arg left args => rw [hp] at hover; exact hover.elim
  | missing i arg args => rw [hp] at hover; exact hover.elim

/-- **At rest a client has what its history commands replay.** Where the server and its history tasks
have no step left and nobody waits in a circle, an open session has one task for each history
command of its texts, in order, which has done all that `historyHandle` does for it; and the client has
got what they sent, what the hub sent, what its own task replied and the answers to its binary
frames. Where the files of the arguments end, a task has replayed the days from the first of the
request up to the end of the files. -/
theorem history_answered (h : HistoryRuns x checks ls log s)
    (hno : ∀ hl s', ¬ OwnHistoryStep x checks s hl s') (hwait : ¬ s.net.CircularWait)
    (hopen : (s.net.session i).IsOpen) :
    s.commands i = commanded x ls i ∧
      (∃ history, Interleaves (frames log i)
          (bySource (outputs x (processed log) i) (ownReplies x (netSteps ls) i) history
            (refusals (netSteps ls) i)) ∧
        Interleaves history (s.share ls i)) ∧
      ∀ (k : ℕ) (t : HistoryTask), s.tasks[k]? = some t → t.session = i →
        (∃ out, out ≠ .running ∧ ∃ N, ∀ fuel, N ≤ fuel →
          historyHandle x checks fuel t.command.start t.command.stop t.command.args = (eventsOf ls k, out)) ∧
        ∀ days : MarketDataArg → ℕ,
          (∀ arg ∈ t.command.args, x.EndsAfter arg t.command.start (days arg)) →
          eventsOf ls k = t.command.args.flatMap fun arg => replayed x t.command (days arg) arg := by
  have hok := history_run h
  obtain ⟨hquiet, hover⟩ := (history_progress hok hno).resolve_right hwait
  refine ⟨?_, ⟨_, hquiet.frames (historyNet_run h) hopen, history_interleaves h i⟩, ?_⟩
  · -- nothing is left to spawn
    have hops : (s.net.session i).phase.ops = [] := by
      rcases hquiet.session i with hp | hp | ⟨hp, -⟩ <;> rw [hp] <;> rfl
    have hcommands := hok.commands i
    rwa [hops, List.filterMap_nil, List.append_nil] at hcommands
  · rintro k t ht rfl
    have hmem := List.mem_of_getElem? ht
    have hwhole := hok.whole ht (hover t hmem) fun hgone => hopen.2 ((hok.placed t hmem).gone hgone)
    refine ⟨hwhole, fun days hends => ?_⟩
    obtain ⟨out, -, N, hN⟩ := hwhole
    obtain ⟨M, hM⟩ : ∃ M, ∀ fuel, M ≤ fuel →
        historyHandle x checks fuel t.command.start t.command.stop t.command.args =
          (t.command.args.flatMap fun arg => replayed x t.command (days arg) arg, .done) :=
      historyHandle_upTo days t.command.args hends
    have hsame := (hN (max N M) (Nat.le_max_left N M)).symm.trans (hM (max N M) (Nat.le_max_right N M))
    exact congrArg Prod.fst hsame

/-- Nothing is under way after the command. -/
theorem replay_quiet_net : (replayAt [] .done).net.Quiet := by
  refine ⟨rfl, rfl, rfl, fun i => ?_⟩
  by_cases hi : i = 1
  · subst hi
    exact Or.inr (Or.inr (by simp [replayAt]))
  · left
    simp only [replayAt, oneNet, Net.session_set, if_neg hi]
    rfl

/-- The client has the record, what is said of day 7 and the answer to its binary frame. -/
theorem history_answered_replay :
    [⟨6, 1, [btcTrade]⟩] = commanded replayCrates replayLabels 1 ∧
      (∃ history, Interleaves [dayRecord, noDay, binaryError]
          (bySource [] (ownReplies replayCrates (netSteps replayLabels) 1) history [binaryError]) ∧
        Interleaves history ((replayAt [] .done).share replayLabels 1)) ∧
      eventsOf replayLabels 0 = replayed replayCrates ⟨6, 1, [btcTrade]⟩ 1 btcTrade := by
  have hover : ∀ t ∈ (replayAt [] .done).tasks, t.point.Over := by simp [replayAt, HistoryAt.Over]
  have hopen : ((replayAt [] .done).net.session 1).IsOpen := by simp [replayAt, Session.IsOpen]
  obtain ⟨hcommands, hframes, htasks⟩ := history_answered replay_logged
    (fun _ _ => history_no_step replay_quiet_net hover) replay_quiet_net.not_circularWait hopen
  obtain ⟨-, hdays⟩ := htasks 0 ⟨1, ⟨6, 1, [btcTrade]⟩, .done⟩ rfl rfl
  have hends : replayCrates.EndsAfter btcTrade 6 1 := by
    refine ⟨fun k hk => ?_, by decide, by decide⟩
    obtain rfl : k = 0 := by omega
    decide
  have hevents := hdays (fun _ => 1) fun arg harg => by
    obtain rfl := List.mem_singleton.1 harg
    exact hends
  exact ⟨hcommands, hframes, by simpa using hevents⟩

end CryptoMarket.Replay
