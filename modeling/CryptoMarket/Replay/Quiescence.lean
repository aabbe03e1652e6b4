import Mathlib.Algebra.BigOperators.Group.Finset.Basic
import Mathlib.Data.Prod.Lex
import CryptoMarket.Replay.Breach
import CryptoMarket.Replay.Ledger

/-!
# Coming to rest

The server's own steps (`Label.Own`) are those that need no new frame of a client, no new
market message and no history task. Clients read what they are sent, or are gone, so that
`socket.send` succeeds or fails but does not wait.

* `progress`: where no own step is left, the net is quiet or has a circular wait.
* `ends`: the own steps alone come to an end from every reachable net.
* `comes_to_rest`: so they end quiet or in a circular wait, whatever their order.
* `answered_at_rest`: in a quiet net everything that was asked for has been processed and
  everything that was sent to an open session has got to its client.
* `circularWait_forever`: a circular wait is never left, and what is in it gets nothing more.
-/

namespace CryptoMarket.Replay

/-- The steps that the server takes by itself. -/
def Label.Own : Label → Prop
  | .op _ | .finish _ | .bye _ | .pop _ | .miss _ | .takeAction | .takeData _ | .push => True
  | _ => False

/-- The server's own steps. -/
def OwnStep (x : Crates) : Net → Label → Net → Prop := Guarded (Step x) fun _ l => l.Own

/-- The session waits for its client, and nothing waits for it. -/
def Session.Quiet (c : Session) : Prop :=
  c.phase = .absent ∨ c.phase = .ended ∨ c.phase = .select ∧ c.rxJson = []

/-- Nothing is under way. -/
structure Net.Quiet (n : Net) : Prop where
  sending : n.sending = []
  actions : n.actions = []
  data : n.data = []
  session : ∀ i, (n.session i).Quiet

variable {x : Crates} {n n' : Net} {l : Label} {ls : List Label} {log : List NetEvent} {i : ℕ}

/-! ## Progress -/

/-- The task of session `i` is at a send to the hub. -/
def Phase.AtSend : Phase → Prop
  | .handling (.send _ :: _) _ => True
  | .closing => True
  | _ => False

/-- A session with no step is quiet, waits for itself or waits for the hub. -/
theorem session_progress (hno : ∀ l n', ¬ OwnStep x n l n') (i : ℕ) :
    (n.session i).Quiet ∨ n.SelfBlocked i ∨ n.ActionBlocked i := by
  have hst : ∀ {l n'}, Step x n l n' → ¬ l.Own := fun hst hl => hno _ _ ⟨hst, hl⟩
  cases hp : (n.session i).phase with
  | absent => exact Or.inl (Or.inl hp)
  | ended => exact Or.inl (Or.inr (Or.inl hp))
  | select =>
    cases hq : (n.session i).rxJson with
    | nil => exact Or.inl (Or.inr (Or.inr ⟨hp, hq⟩))
    | cons msg q => exact absurd trivial (hst (Step.pop hp hq))
  | closing =>
    have hfull : actionCap ≤ n.actions.length := by
      by_contra hlt
      exact hst (Step.bye hp (Nat.lt_of_not_le hlt)) trivial
    exact Or.inr (Or.inr ⟨Or.inr hp, hfull⟩)
  | handling ops ok =>
    cases ops with
    | nil => exact absurd trivial (hst (Step.finish hp))
    | cons op ops =>
      cases op with
      | send a =>
        have hfull : actionCap ≤ n.actions.length := by
          by_contra hlt
          exact hst (Step.sendAction hp (Nat.lt_of_not_le hlt)) trivial
        exact Or.inr (Or.inr ⟨Or.inl ⟨a, ops, ok, hp⟩, hfull⟩)
      | reply msg =>
        have hfull : jsonCap ≤ (n.session i).rxJson.length := by
          by_contra hlt
          exact hst (Step.reply hp (Nat.lt_of_not_le hlt)) trivial
        exact Or.inr (Or.inl ⟨⟨msg, ops, ok, hp⟩, hfull⟩)
      | spawn start stop args => exact absurd trivial (hst (Step.spawn hp))

/-- A quiet session with a receiver has an empty queue. -/
theorem Session.Quiet.rxJson {c : Session} (h : c.Quiet) (ho : c.IsOpen) : c.rxJson = [] := by
  rcases h with h | h | ⟨-, h⟩
  · exact absurd h ho.1
  · exact absurd h ho.2
  · exact h

/-- A hub with no step has nothing to do or waits for an open session with a full queue. -/
theorem hub_progress (hno : ∀ l n', ¬ OwnStep x n l n') :
    (n.sending = [] ∧ n.actions = [] ∧ n.data = []) ∨ ∃ i, n.HubBlocked i := by
  have hst : ∀ {l n'}, Step x n l n' → ¬ l.Own := fun hst hl => hno _ _ ⟨hst, hl⟩
  cases hs : n.sending with
  | cons m rest =>
    obtain ⟨⟨i⟩, msg⟩ := m
    right
    have hopen : (n.session i).IsOpen := by
      by_contra ho
      exact hst (Step.drop hs ho) trivial
    refine ⟨i, ⟨msg, rest, hs⟩, hopen, ?_⟩
    by_contra hlt
    exact hst (Step.push hs hopen (Nat.lt_of_not_le hlt)) trivial
  | nil =>
    left
    refine ⟨rfl, ?_, ?_⟩
    · cases ha : n.actions with
      | nil => rfl
      | cons a rest => exact absurd trivial (hst (Step.takeAction hs ha))
    · cases hd : n.data with
      | nil => rfl
      | cons d rest =>
        obtain ⟨s, mt, d⟩ := d
        have horder := Multiset.coe_toList (dataHander x s mt d n.hub).2
        exact absurd trivial (hst (Step.takeData hs hd horder))

/-- **Progress.** The server can go on, or nothing is under way, or some task waits for
itself, or the hub and a session wait for each other. -/
theorem progress (hno : ∀ l n', ¬ OwnStep x n l n') : n.Quiet ∨ n.CircularWait := by
  rcases hub_progress hno with ⟨hs, ha, hd⟩ | ⟨i, hblocked⟩
  · by_cases hself : ∃ i, n.SelfBlocked i
    · exact Or.inr (Or.inl hself)
    · refine Or.inl ⟨hs, ha, hd, fun i => ?_⟩
      rcases session_progress hno i with h | h | ⟨-, hfull⟩
      · exact h
      · exact absurd ⟨i, h⟩ hself
      · rw [ha] at hfull
        exact absurd hfull (by decide)
  · obtain ⟨-, hopen, hfull⟩ := id hblocked
    rcases session_progress hno i with h | h | h
    · rw [h.rxJson hopen] at hfull
      exact absurd hfull (by decide)
    · exact Or.inr (Or.inl ⟨i, h⟩)
    · exact Or.inr (Or.inr ⟨i, hblocked, h⟩)

/-- A quiet net has no own step. -/
theorem Net.Quiet.no_step (h : n.Quiet) : ¬ OwnStep x n l n' := by
  rintro ⟨hst, hown⟩
  have hphase : ∀ {i p}, (n.session i).phase = p → p = .absent ∨ p = .ended ∨ p = .select := by
    rintro i p rfl
    rcases h.session i with hq | hq | hq
    · exact Or.inl hq
    · exact Or.inr (Or.inl hq)
    · exact Or.inr (Or.inr hq.1)
  cases hst with
  | connect _ => exact hown
  | text _ => exact hown
  | frame _ => exact hown
  | binary _ => exact hown
  | leave _ => exact hown
  | crash _ => exact hown
  | produce _ => exact hown
  | history _ _ _ => exact hown
  | sendAction hp _ => simpa using hphase hp
  | reply hp _ => simpa using hphase hp
  | spawn hp => simpa using hphase hp
  | finish hp => simpa using hphase hp
  | bye hp _ => simpa using hphase hp
  | @pop i msg q hp hq =>
    have hnil := (h.session i).rxJson ⟨by simp [hp], by simp [hp]⟩
    rw [hq] at hnil
    cases hnil
  | @miss i msg q hp hq =>
    have hnil := (h.session i).rxJson ⟨by simp [hp], by simp [hp]⟩
    rw [hq] at hnil
    cases hnil
  | takeAction _ ha => exact absurd (ha.symm.trans h.actions) (by simp)
  | takeData _ hd _ => exact absurd (hd.symm.trans h.data) (by simp)
  | push hs _ _ => exact absurd (hs.symm.trans h.sending) (by simp)
  | drop hs _ => exact absurd (hs.symm.trans h.sending) (by simp)

/-! ## Ends -/

/-- The steps of its own that a session's task has left at most, but those that take an item out
of its queue and go back to its loop. -/
def Phase.work : Phase → ℕ
  | .handling ops _ => ops.length + 3
  | .select => 2
  | .closing => 1
  | _ => 0

/-- The steps of their own that the tasks of the sessions below `N` have left. -/
def Net.work (N : ℕ) (n : Net) : ℕ := ∑ j ∈ Finset.range N, (n.session j).phase.work

/-- The items in the JSON queues of the sessions below `N`. -/
def Net.queued (N : ℕ) (n : Net) : ℕ := ∑ j ∈ Finset.range N, (n.session j).rxJson.length

/-- What the server has left to do, in two numbers: first what leads to sends, the requests
and the market messages; then the sends and the items in the JSON queues. -/
def Net.load (N : ℕ) (n : Net) : ℕ ×ₗ ℕ :=
  toLex (2 * n.work N + n.actions.length + n.data.length, 2 * n.sending.length + n.queued N)

variable {N : ℕ}

/-- A sum over the sessions, where one of them moves. -/
theorem sum_set (g : Session → ℕ) (hi : i < N) (c : Session) :
    ∑ j ∈ Finset.range N, g ((n.set i c).session j) + g (n.session i) =
      ∑ j ∈ Finset.range N, g (n.session j) + g c := by
  have hmem := Finset.mem_range.2 hi
  have hrest : ∑ j ∈ (Finset.range N).erase i, g ((n.set i c).session j) =
      ∑ j ∈ (Finset.range N).erase i, g (n.session j) := by
    refine Finset.sum_congr rfl fun j hj => ?_
    rw [Net.session_set, if_neg (Finset.ne_of_mem_erase hj)]
  have hself : (n.set i c).session i = c := by rw [Net.session_set, if_pos rfl]
  rw [← Finset.add_sum_erase _ _ hmem, hrest, hself,
    ← Finset.add_sum_erase (Finset.range N) (fun j => g (n.session j)) hmem]
  omega

theorem work_set (n : Net) (hi : i < N) (c : Session) :
    (n.set i c).work N + (n.session i).phase.work = n.work N + c.phase.work :=
  sum_set (fun c => c.phase.work) hi c

theorem work_goto (n : Net) (hi : i < N) (p : Phase) :
    (n.goto i p).work N + (n.session i).phase.work = n.work N + p.work := work_set n hi _

theorem queued_set (n : Net) (hi : i < N) (c : Session) :
    (n.set i c).queued N + (n.session i).rxJson.length = n.queued N + c.rxJson.length :=
  sum_set (fun c => c.rxJson.length) hi c

theorem work_pushJson (n : Net) (hi : i < N) (msg : String) : (n.pushJson i msg).work N = n.work N :=
  Nat.add_right_cancel (work_set n hi { n.session i with rxJson := (n.session i).rxJson ++ [msg] })

theorem queued_pushJson (n : Net) (hi : i < N) (msg : String) :
    (n.pushJson i msg).queued N = n.queued N + 1 := by
  have hset := queued_set n hi ⟨(n.session i).phase, (n.session i).rxJson ++ [msg], (n.session i).spawned⟩
  rw [List.length_append, List.length_singleton] at hset
  show (n.set i ⟨_, _, _⟩).queued N = _
  omega

/-- From session `N` on nobody has connected. -/
def Net.Below (n : Net) (N : ℕ) : Prop := ∀ j, N ≤ j → (n.session j).phase = .absent

theorem Net.Below.lt (h : n.Below N) (hi : (n.session i).phase ≠ .absent) : i < N := by
  by_contra hle
  exact hi (h i (Nat.le_of_not_lt hle))

theorem Net.Below.set (h : n.Below N) (hi : i < N) (c : Session) : (n.set i c).Below N := by
  intro j hj
  rw [Net.session_set, if_neg (by omega)]
  exact h j hj

/-- A step that leaves less to lead to sends. -/
theorem load_lt_of_work (h : 2 * n'.work N + n'.actions.length + n'.data.length <
    2 * n.work N + n.actions.length + n.data.length) : n'.load N < n.load N :=
  Prod.Lex.toLex_lt_toLex.2 (Or.inl h)

/-- A step of the sends. -/
theorem load_lt_of_sends (hw : n'.work N = n.work N) (ha : n'.actions = n.actions) (hd : n'.data = n.data)
    (h : 2 * n'.sending.length + n'.queued N < 2 * n.sending.length + n.queued N) :
    n'.load N < n.load N :=
  Prod.Lex.toLex_lt_toLex.2 (Or.inr ⟨by rw [hw, ha, hd], h⟩)

/-- **An own step lowers the load**, and nobody connects. -/
theorem load_step (hn : n.Below N) (hst : OwnStep x n l n') : n'.Below N ∧ n'.load N < n.load N := by
  obtain ⟨hst, hown⟩ := hst
  cases hst with
  | connect _ => exact hown.elim
  | text _ => exact hown.elim
  | frame _ => exact hown.elim
  | binary _ => exact hown.elim
  | leave _ => exact hown.elim
  | crash _ => exact hown.elim
  | produce _ => exact hown.elim
  | history _ _ _ => exact hown.elim
  | @sendAction i a ops ok hp hlt =>
    have hi : i < N := hn.lt (by simp [hp])
    have hwork := work_goto n hi (.handling ops ok)
    simp only [hp, Phase.work, List.length_cons] at hwork
    refine ⟨hn.set hi _, load_lt_of_work ?_⟩
    show 2 * (n.goto i _).work N + (n.actions ++ [a]).length + n.data.length < _
    rw [List.length_append, List.length_singleton]
    omega
  | @reply i msg ops ok hp hlt =>
    have hi : i < N := hn.lt (by simp [hp])
    have hwork := work_goto n hi (.handling ops ok)
    simp only [hp, Phase.work, List.length_cons] at hwork
    refine ⟨(hn.set hi _).set hi _, load_lt_of_work ?_⟩
    rw [work_pushJson _ hi]
    show 2 * (n.goto i _).work N + n.actions.length + n.data.length < _
    omega
  | @spawn i start stop args ops ok hp =>
    have hi : i < N := hn.lt (by simp [hp])
    have hwork := work_set n hi ⟨.handling ops ok, (n.session i).rxJson, true⟩
    simp only [hp, Phase.work, List.length_cons] at hwork
    refine ⟨hn.set hi _, load_lt_of_work ?_⟩
    show 2 * (n.set i ⟨_, _, _⟩).work N + n.actions.length + n.data.length < _
    omega
  | @finish i ok hp =>
    have hi : i < N := hn.lt (by simp [hp])
    have hwork := work_goto n hi (if ok then .select else .closing)
    have hnext : (if ok then Phase.select else .closing).work ≤ 2 := by cases ok <;> simp [Phase.work]
    rw [hp] at hwork
    have hempty : (Phase.handling [] ok).work = 3 := rfl
    refine ⟨hn.set hi _, load_lt_of_work ?_⟩
    show 2 * (n.goto i _).work N + n.actions.length + n.data.length < _
    omega
  | @bye i hp hlt =>
    have hi : i < N := hn.lt (by simp [hp])
    have hwork := work_goto n hi .ended
    simp only [hp, Phase.work] at hwork
    refine ⟨hn.set hi _, load_lt_of_work ?_⟩
    show 2 * (n.goto i _).work N + (n.actions ++ [_]).length + n.data.length < _
    rw [List.length_append, List.length_singleton]
    omega
  | @pop i msg q hp hq =>
    have hi : i < N := hn.lt (by simp [hp])
    have hwork := work_set n hi ⟨(n.session i).phase, q, (n.session i).spawned⟩
    have hqueued := queued_set n hi ⟨(n.session i).phase, q, (n.session i).spawned⟩
    simp only [hq, List.length_cons] at hqueued
    refine ⟨hn.set hi _, load_lt_of_sends (Nat.add_right_cancel hwork) rfl rfl ?_⟩
    show 2 * n.sending.length + (n.set i ⟨_, _, _⟩).queued N < _
    omega
  | @miss i msg q hp hq =>
    have hi : i < N := hn.lt (by simp [hp])
    have hwork := work_set n hi ⟨.closing, q, (n.session i).spawned⟩
    simp only [hp, Phase.work] at hwork
    refine ⟨hn.set hi _, load_lt_of_work ?_⟩
    show 2 * (n.set i ⟨_, _, _⟩).work N + n.actions.length + n.data.length < _
    omega
  | @takeAction a rest hs ha =>
    refine ⟨hn, load_lt_of_work ?_⟩
    rw [ha, List.length_cons]
    show 2 * n.work N + rest.length + n.data.length < _
    omega
  | @takeData s mt d rest order hs hd ho =>
    refine ⟨hn, load_lt_of_work ?_⟩
    rw [hd, List.length_cons]
    show 2 * n.work N + n.actions.length + rest.length < _
    omega
  | @push tx msg rest hs ho hlt =>
    have hi : tx.session < N := hn.lt ho.1
    have hqueued := queued_pushJson n hi msg
    refine ⟨hn.set hi _, load_lt_of_sends (work_pushJson n hi msg) rfl rfl ?_⟩
    rw [hs, List.length_cons]
    show 2 * rest.length + (n.pushJson tx.session msg).queued N < _
    omega
  | @drop tx msg rest hs ho =>
    refine ⟨hn, load_lt_of_sends rfl rfl rfl ?_⟩
    rw [hs, List.length_cons]
    show 2 * rest.length + n.queued N < _
    omega

/-- **The server's own steps end** from every reachable net. -/
theorem ends (h : Run (Step x) Net.init ls n) : Ends (OwnStep x) n := by
  obtain ⟨N, hN⟩ := finite_run h
  exact Ends.of_rank (P := fun n => n.Below N) (Net.load N) (fun s l t hs hst => (load_step hs hst).1)
    (fun s l t hs hst => (load_step hs hst).2) hN

/-- **The server comes to rest**, if its clients read or are gone. From every reachable net the
server's own steps come to an end, whatever their order; and where none is left, nothing is under
way or there is a circular wait. -/
theorem comes_to_rest (h : Run (Step x) Net.init ls n) :
    Ends (OwnStep x) n ∧ ∀ ms n', Run (OwnStep x) n ms n' → (∀ l n'', ¬ OwnStep x n' l n'') →
      n'.Quiet ∨ n'.CircularWait :=
  ⟨ends h, fun _ _ _ hno => progress hno⟩

/-- The own steps after an unknown command. -/
theorem comes_to_rest_ping : ∃ n, Run (Step pingCrates) Net.init [.connect 1, .text 1 pingText] n ∧
    Ends (OwnStep pingCrates) n ∧ ∀ ms n', Run (OwnStep pingCrates) n ms n' →
      (∀ l n'', ¬ OwnStep pingCrates n' l n'') → n'.Quiet ∨ n'.CircularWait := by
  have hconnect : Step pingCrates Net.init (.connect 1) (Net.init.goto 1 .select) := Step.connect rfl
  obtain ⟨n, htext, -, -⟩ := ping_text (n := Net.init.goto 1 .select) (k := 0) ⟨rfl, rfl⟩
  have hrun := Run.cons hconnect (Run.single htext)
  exact ⟨n, hrun, comes_to_rest hrun⟩

/-! ## At rest -/

/-- A quiet session with a receiver is in its loop. -/
theorem Session.Quiet.not_over {c : Session} (h : c.Quiet) (ho : c.IsOpen) : ¬ c.phase.Over := by
  rcases h with h | h | ⟨h, -⟩
  · exact absurd h ho.1
  · exact absurd h ho.2
  · rintro (hover | hover) <;> simp [h] at hover

/-- A session in a quiet net has nothing left to ask for or to reply. -/
theorem Session.Quiet.left {c : Session} (h : c.Quiet) : c.phase.actions = [] ∧ c.phase.replies = [] := by
  rcases h with h | h | ⟨h, -⟩ <;> rw [h] <;> exact ⟨rfl, rfl⟩

/-- What the client of an open session has got in a quiet net. -/
theorem Net.Quiet.frames (hquiet : n.Quiet) (h : NetRuns x ls log n) (hopen : (n.session i).IsOpen) :
    Interleaves (frames log i)
      (bySource (outputs x (processed log) i) (ownReplies x ls i) (historyMsgs ls i) (refusals ls i)) := by
  have hserved := served_run h i
  -- the session has not ended, so the hub has lost nothing
  have hlost : lost log i = [] := by
    by_contra hlost
    exact hopen.2 (hserved.ended hlost)
  -- it is in its loop, so no send has failed
  have hmissed : missed log i = [] := by
    by_contra hmissed
    exact (hquiet.session i).not_over hopen (hserved.failed hmissed).2
  have hhub := hserved.hub
  rw [hlost, hquiet.sending, tagged_nil, List.append_nil, List.append_nil] at hhub
  have hown := hserved.replies
  rw [(hquiet.session i).left.2, List.append_nil] at hown
  have hall := hserved.order
  rwa [hmissed, (hquiet.session i).rxJson hopen, List.append_nil, List.append_nil, hhub, hown] at hall

/-- **At rest everything has been answered.** Where the server has no step left and nobody
waits in a circle, the hub has processed every market message and every action that was
asked for, in order; and the client of every open session has got all that the hub, its
session's task and its history tasks had for it, and an answer to each of its binary frames. -/
theorem answered_at_rest (h : NetRuns x ls log n) (hno : ∀ l n', ¬ OwnStep x n l n')
    (hwait : ¬ n.CircularWait) :
    (processed log).filterMap HubMsg.market = produced ls ∧
      ∀ i, (processed log).filterMap (HubMsg.ownAction i) = requested x ls i ∧
        ((n.session i).IsOpen → Interleaves (frames log i)
          (bySource (outputs x (processed log) i) (ownReplies x ls i) (historyMsgs ls i) (refusals ls i))) := by
  have hquiet := (progress hno).resolve_right hwait
  have hreq := requests_run h
  refine ⟨?_, fun i => ⟨?_, fun hopen => hquiet.frames h hopen⟩⟩
  · have hmarket := hreq.market
    rwa [hquiet.data, List.map_nil, List.append_nil] at hmarket
  · have hactions := hreq.actions i
    rwa [hquiet.actions, (hquiet.session i).left.1, List.filter_nil, List.append_nil,
      List.append_nil] at hactions

theorem Net.Quiet.not_circularWait (h : n.Quiet) : ¬ n.CircularWait := by
  rintro (⟨i, ⟨msg, ops, ok, hp⟩, -⟩ | ⟨i, ⟨⟨msg, rest, hs⟩, -, -⟩, -⟩)
  · rcases h.session i with hq | hq | ⟨hq, -⟩ <;> simp [hp] at hq
  · exact absurd (hs.symm.trans h.sending) (by simp)

/-- After the second trade nothing is under way. -/
theorem client_quiet : (clientNet tradeHub [] [] [] ⟨.select, [], false⟩).Quiet := by
  refine ⟨rfl, rfl, rfl, fun i => ?_⟩
  by_cases hi : i = 1
  · rw [hi, clientNet_session]
    exact Or.inr (Or.inr ⟨rfl, rfl⟩)
  · exact Or.inl (by simp [clientNet, Net.init, hi])

/-- The client has the reply, the trade after it and the answer to its binary frame. -/
theorem answered_at_rest_btc :
    [.data btcTrade.toString "trade" [1], .data btcTrade.toString "trade" [2]] = produced (clientLabels [2]) ∧
      [.subscribe 1 btcTrade.toString] = requested tradeCrates (clientLabels [2]) 1 ∧
      Interleaves [success, binaryError, tradeCrates.marketMessage "trade" [2]]
        (bySource [success, tradeCrates.marketMessage "trade" [2]]
          (ownReplies tradeCrates (clientLabels [2]) 1) [] [binaryError]) := by
  obtain ⟨hmarket, hall⟩ :=
    answered_at_rest (client_logged [2]) (fun _ _ => client_quiet.no_step) client_quiet.not_circularWait
  obtain ⟨hactions, hframes⟩ := hall 1
  rw [clientNet_session] at hframes
  exact ⟨hmarket, hactions, hframes ⟨by simp, by simp⟩⟩

/-! ## Circular waits stay -/

/-- The session's queue is full, and its task waits to send into it or to the hub. -/
def Net.Frozen (n : Net) (i : ℕ) : Prop :=
  jsonCap ≤ (n.session i).rxJson.length ∧
    ((n.session i).phase.AtReply ∨ (n.session i).phase.AtSend ∧ actionCap ≤ n.actions.length)

theorem Net.SelfBlocked.frozen (h : n.SelfBlocked i) : n.Frozen i := by
  obtain ⟨⟨msg, ops, ok, hp⟩, hfull⟩ := h
  exact ⟨hfull, Or.inl (by rw [hp]; trivial)⟩

theorem Net.HubBlocked.frozen (h : n.HubBlocked i) (ha : n.ActionBlocked i) : n.Frozen i := by
  obtain ⟨hat, hfull⟩ := ha
  refine ⟨h.2.2, Or.inr ⟨?_, hfull⟩⟩
  rcases hat with ⟨a, ops, ok, hp⟩ | hp <;> rw [hp] <;> trivial

/-- The task of a frozen session is at one of the two sends. -/
theorem Net.Frozen.ne {p : Phase} (h : n.Frozen i) {j : ℕ} (hp : (n.session j).phase = p)
    (hr : ¬ p.AtReply) (hs : ¬ p.AtSend) : i ≠ j := by
  rintro rfl
  subst hp
  exact h.2.elim hr fun h => hs h.1

/-- Its queue is full. -/
theorem Net.Frozen.ne_of_room (h : n.Frozen i) {j : ℕ} (hlt : (n.session j).rxJson.length < jsonCap) : i ≠ j := by
  rintro rfl
  exact absurd h.1 (Nat.not_le.2 hlt)

/-- When the action queue has room, its task waits to send into its own queue. -/
theorem Net.Frozen.ne_of_actions {p : Phase} (h : n.Frozen i) {j : ℕ} (hp : (n.session j).phase = p)
    (hr : ¬ p.AtReply) (hlt : n.actions.length < actionCap) : i ≠ j := by
  rintro rfl
  subst hp
  exact h.2.elim hr fun hs => absurd hs.2 (Nat.not_le.2 hlt)

/-- **Nobody moves a frozen session.** -/
theorem frozen_step (h : n.Frozen i) (hst : Step x n l n') :
    n'.session i = n.session i ∧ frames (netEvents n l) i = [] := by
  have hset : ∀ {j : ℕ} (c : Session), i ≠ j → (n.set j c).session i = n.session i := fun c hne => by
    rw [Net.session_set, if_neg hne]
  cases hst with
  | connect hp => exact ⟨hset _ (h.ne hp id id), rfl⟩
  | text hp => exact ⟨hset _ (h.ne hp id id), rfl⟩
  | frame hp => exact ⟨rfl, rfl⟩
  | @binary j hp =>
    have hne : i ≠ j := h.ne hp id id
    exact ⟨rfl, by rw [netEvents, frames_refused, if_neg (Ne.symm hne)]⟩
  | leave hp => exact ⟨hset _ (h.ne hp id id), rfl⟩
  | crash hp => exact ⟨hset _ (h.ne hp id id), rfl⟩
  | sendAction hp hlt => exact ⟨hset _ (h.ne_of_actions hp id hlt), by simp only [netEvents, hp]; rfl⟩
  | @reply j msg ops ok hp hlt =>
    refine ⟨?_, by simp only [netEvents, hp]; rfl⟩
    simp only [Net.pushJson, Net.goto, Net.session_set, if_neg (h.ne_of_room hlt)]
  | spawn hp => exact ⟨hset _ (h.ne hp id id), by simp only [netEvents, hp]; rfl⟩
  | finish hp => exact ⟨hset _ (h.ne hp id id), rfl⟩
  | bye hp hlt => exact ⟨hset _ (h.ne_of_actions hp id hlt), rfl⟩
  | @pop j msg q hp hq =>
    have hne : i ≠ j := h.ne hp id id
    have hev : netEvents n (.pop j) = [.frame j msg] := by simp only [netEvents, hq]; rfl
    exact ⟨hset _ hne, by rw [hev, frames_frame, if_neg (Ne.symm hne)]⟩
  | @miss j msg q hp hq =>
    have hev : netEvents n (.miss j) = [.missed j msg] := by simp only [netEvents, hq]; rfl
    exact ⟨hset _ (h.ne hp id id), by rw [hev]; rfl⟩
  | produce hlt => exact ⟨rfl, rfl⟩
  | takeAction hs ha => exact ⟨rfl, by simp only [netEvents, ha]; rfl⟩
  | takeData hs hd ho => exact ⟨rfl, by simp only [netEvents, hd]; rfl⟩
  | push hs ho hlt => exact ⟨hset _ (h.ne_of_room hlt), by simp only [netEvents, hs, if_pos ho]; rfl⟩
  | drop hs ho => exact ⟨rfl, by simp only [netEvents, hs, if_neg ho]; rfl⟩
  | history hsp ho hlt => exact ⟨hset _ (h.ne_of_room hlt), rfl⟩

/-- **The hub does not move** while it waits for a session that waits for it. -/
theorem hub_frozen_step (hb : n.HubBlocked i) (ha : n.ActionBlocked i) (hst : Step x n l n') :
    n'.hub = n.hub ∧ n'.sending = n.sending ∧ n'.actions = n.actions ∧ processed (netEvents n l) = [] := by
  obtain ⟨⟨msg, rest, hs⟩, hopen, hfull⟩ := hb
  obtain ⟨-, hacts⟩ := ha
  cases hst with
  | connect hp => exact ⟨rfl, rfl, rfl, rfl⟩
  | text hp => exact ⟨rfl, rfl, rfl, rfl⟩
  | frame hp => exact ⟨rfl, rfl, rfl, rfl⟩
  | binary hp => exact ⟨rfl, rfl, rfl, rfl⟩
  | leave hp => exact ⟨rfl, rfl, rfl, rfl⟩
  | crash hp => exact ⟨rfl, rfl, rfl, rfl⟩
  | sendAction hp hlt => omega
  | reply hp hlt => exact ⟨rfl, rfl, rfl, by simp only [netEvents, hp]; rfl⟩
  | spawn hp => exact ⟨rfl, rfl, rfl, by simp only [netEvents, hp]; rfl⟩
  | finish hp => exact ⟨rfl, rfl, rfl, rfl⟩
  | bye hp hlt => omega
  | pop hp hq => exact ⟨rfl, rfl, rfl, by simp only [netEvents, hq]; rfl⟩
  | miss hp hq => exact ⟨rfl, rfl, rfl, by simp only [netEvents, hq]; rfl⟩
  | produce hlt => exact ⟨rfl, rfl, rfl, rfl⟩
  | takeAction hs' _ => exact absurd (hs.symm.trans hs') (by simp)
  | takeData hs' _ _ => exact absurd (hs.symm.trans hs') (by simp)
  | @push tx msg' rest' hs' ho hlt =>
    obtain ⟨hhead, -⟩ := List.cons.inj (hs.symm.trans hs')
    obtain ⟨rfl, -⟩ := Prod.mk.inj hhead
    exact absurd hlt (Nat.not_lt.2 hfull)
  | @drop tx msg' rest' hs' ho =>
    obtain ⟨hhead, -⟩ := List.cons.inj (hs.symm.trans hs')
    obtain ⟨rfl, -⟩ := Prod.mk.inj hhead
    exact absurd hopen ho
  | history hsp ho hlt => exact ⟨rfl, rfl, rfl, rfl⟩

/-- **A session that waits for itself** waits in every later state, and its client gets
nothing more. -/
theorem selfBlocked_run {y y' : Net × List NetEvent} (hrun : Run (Logged (Step x) netEvents) y ls y')
    (h : y.1.SelfBlocked i) : y'.1.SelfBlocked i ∧ frames y'.2 i = frames y.2 i := by
  refine Run.inv (P := fun z => z.1.SelfBlocked i ∧ frames z.2 i = frames y.2 i) ⟨h, rfl⟩ ?_ hrun
  rintro ⟨n, log⟩ l ⟨n', log'⟩ ⟨hself, hframes⟩ ⟨hst, hlog⟩
  obtain ⟨hsame, hnone⟩ := frozen_step hself.frozen hst
  obtain ⟨hat, hfull⟩ := hself
  refine ⟨⟨?_, ?_⟩, ?_⟩
  · rw [hsame]; exact hat
  · rw [hsame]; exact hfull
  · rw [hlog, frames_append, hnone, List.append_nil]
    exact hframes

/-- **The hub and a session that wait for each other** do so in every later state, and the
hub processes nothing more. -/
theorem hubBlocked_run {y y' : Net × List NetEvent} (hrun : Run (Logged (Step x) netEvents) y ls y')
    (hb : y.1.HubBlocked i) (ha : y.1.ActionBlocked i) :
    (y'.1.HubBlocked i ∧ y'.1.ActionBlocked i) ∧ y'.1.hub = y.1.hub ∧
      processed y'.2 = processed y.2 := by
  refine Run.inv (P := fun z => (z.1.HubBlocked i ∧ z.1.ActionBlocked i) ∧ z.1.hub = y.1.hub ∧
    processed z.2 = processed y.2) ⟨⟨hb, ha⟩, rfl, rfl⟩ ?_ hrun
  rintro ⟨n, log⟩ l ⟨n', log'⟩ ⟨⟨hb, ha⟩, hhub, hproc⟩ ⟨hst, hlog⟩
  have hsame := (frozen_step (hb.frozen ha) hst).1
  obtain ⟨hhub', hsending, hactions, hnone⟩ := hub_frozen_step hb ha hst
  obtain ⟨hhead, hopen, hfull⟩ := hb
  obtain ⟨hat, hacts⟩ := ha
  refine ⟨⟨⟨?_, ?_, ?_⟩, ?_, ?_⟩, hhub'.trans hhub, ?_⟩
  · rw [hsending]; exact hhead
  · rw [hsame]; exact hopen
  · rw [hsame]; exact hfull
  · rw [hsame]; exact hat
  · rw [hactions]; exact hacts
  · rw [hlog, processed_append, hnone, List.append_nil]
    exact hproc

/-- **A circular wait is for ever**, whatever clients, data and history tasks do: a session
that waits for itself goes on waiting and its client gets nothing more; a hub and a session
that wait for each other go on waiting and the hub processes nothing more. -/
theorem circularWait_forever {log' : List NetEvent}
    (h : Run (Logged (Step x) netEvents) (n, log) ls (n', log')) :
    (∀ i, n.SelfBlocked i → n'.SelfBlocked i ∧ frames log' i = frames log i) ∧
      ∀ i, n.HubBlocked i → n.ActionBlocked i →
        (n'.HubBlocked i ∧ n'.ActionBlocked i) ∧ n'.hub = n.hub ∧ processed log' = processed log :=
  ⟨fun _ hself => selfBlocked_run h hself, fun _ hb ha => hubBlocked_run h hb ha⟩

/-- The command of 1126 subscriptions, and then one more client. -/
theorem circularWait_forever_bulk : ∃ ls n N n', Run (Step bulkCrates) Net.init ls n ∧ n.HubBlocked 1 ∧
    Step bulkCrates n (.connect N) n' ∧ n'.HubBlocked 1 ∧ n'.hub = n.hub := by
  obtain ⟨ls, n, hrun, hb, ha⟩ := circularWait_send
  obtain ⟨N, hN⟩ := finite_run hrun
  have hst : Step bulkCrates n (.connect N) (n.goto N .select) := Step.connect (hN N le_rfl)
  have hlogged : Logged (Step bulkCrates) netEvents (n, []) (.connect N) (n.goto N .select, []) := ⟨hst, rfl⟩
  obtain ⟨hblocked, hhub, -⟩ := (circularWait_forever (Run.single hlogged)).2 1 hb ha
  exact ⟨ls, n, N, _, hrun, hb, hst, hblocked.1, hhub⟩

end CryptoMarket.Replay
