import CryptoMarket.Replay.CircularWait

/-!
# Steps against the guard

After a guarded run, a step that does not meet `Guard` can be followed by steps that end in a
circular wait. Not every continuation does.

* `circularWait_of_stuck`: if the hub waits for a session that still has to send to it, new
  sessions that connect and leave fill the action queue until that session waits too.
* `circularWait_of_not_guard`: a step against the guard makes a session wait for itself, or
  can lead to such a state.
-/

namespace CryptoMarket.Replay

variable {x : Crates} {n n' : Net} {l : Label} {ls : List Label} {i j : ℕ}

/-! ## New sessions -/

/-- From some number on no session has connected yet. -/
def Net.Finite (n : Net) : Prop := ∃ N, ∀ j, N ≤ j → (n.session j).phase = .absent

theorem Net.Finite.set (h : n.Finite) (i : ℕ) (c : Session) : (n.set i c).Finite := by
  obtain ⟨N, hN⟩ := h
  refine ⟨max N (i + 1), fun j hj => ?_⟩
  rw [Net.session_set, if_neg (by omega)]
  exact hN j (by omega)

theorem finite_step (hn : n.Finite) (hst : Step x n l n') : n'.Finite := by
  have hnext : ∀ {m : Net}, n'.session = m.session → m.Finite → n'.Finite := by
    rintro m hs ⟨N, hN⟩
    exact ⟨N, fun j hj => by rw [hs]; exact hN j hj⟩
  rcases hst.session with h | ⟨i, c, h, -⟩
  · exact hnext h hn
  · exact hnext h (hn.set i c)

theorem finite_run (h : Run (Step x) Net.init ls n) : n.Finite :=
  Run.inv (P := Net.Finite) ⟨0, fun _ _ => rfl⟩ (fun _ _ _ hn hst => finite_step hn hst) h

/-- A session that connects and leaves puts one action into the queue. -/
theorem bye_round (hj : (n.session j).phase = .absent) (hlt : n.actions.length < actionCap) :
    ∃ n', Run (Step x) n [.connect j, .leave j, .bye j] n' ∧
      n'.actions.length = n.actions.length + 1 ∧ n'.sending = n.sending ∧
      ∀ k, k ≠ j → n'.session k = n.session k := by
  set n₁ := n.goto j .select
  set n₂ := n₁.goto j .closing
  have h₁ : Step x n (.connect j) n₁ := Step.connect hj
  have h₂ : Step x n₁ (.leave j) n₂ := Step.leave (by rw [net_session_goto])
  have h₃ : Step x n₂ (.bye j) _ := Step.bye (by rw [net_session_goto]) hlt
  refine ⟨_, Run.cons h₁ (Run.cons h₂ (Run.single h₃)), ?_, rfl, fun k hk => ?_⟩
  · rw [List.length_append, List.length_singleton]; rfl
  · show ((n₂.goto j .ended).session k) = n.session k
    simp only [n₂, n₁, Net.goto, Net.session_set, if_neg hk]

/-- **New sessions fill the action queue** and leave the others alone. -/
theorem actions_filled (hn : n.Finite) (hi : (n.session i).phase ≠ .absent) :
    ∃ ls n', Run (Step x) n ls n' ∧ actionCap ≤ n'.actions.length ∧ n'.sending = n.sending ∧
      n'.session i = n.session i := by
  -- the induction is on the room left in the queue
  have key : ∀ (room : ℕ) (n : Net), n.Finite → (n.session i).phase ≠ .absent →
      actionCap ≤ n.actions.length + room → ∃ ls n', Run (Step x) n ls n' ∧
        actionCap ≤ n'.actions.length ∧ n'.sending = n.sending ∧ n'.session i = n.session i := by
    intro room
    induction room with
    | zero => intro n _ _ hroom; exact ⟨[], n, Run.nil, hroom, rfl, rfl⟩
    | succ room ih =>
      intro n hn hi hroom
      by_cases hfull : actionCap ≤ n.actions.length
      · exact ⟨[], n, Run.nil, hfull, rfl, rfl⟩
      · obtain ⟨N, hN⟩ := hn
        have hij : i ≠ N := by
          rintro rfl
          exact hi (hN i le_rfl)
        obtain ⟨n₁, hrun₁, hlen, hsend, hsame⟩ := bye_round (x := x) (hN N le_rfl) (by omega)
        have hn₁ : n₁.Finite := by
          refine ⟨N + 1, fun k hk => ?_⟩
          rw [hsame k (by omega)]
          exact hN k (by omega)
        have hi₁ := hsame i hij
        obtain ⟨ls, n₂, hrun₂, hfull₂, hsend₂, hi₂⟩ := ih n₁ hn₁ (by rw [hi₁]; exact hi) (by omega)
        exact ⟨_, n₂, hrun₁.append hrun₂, hfull₂, hsend₂.trans hsend, hi₂.trans hi₁⟩
  exact key actionCap n hn hi (by omega)

/-! ## Stuck sessions -/

/-- The hub waits for session `i`, which sends to the hub before it reads. -/
structure Net.Stuck (n : Net) (i : ℕ) : Prop where
  hub : n.HubBlocked i
  owes : (n.session i).phase.Owes
  orderly : (n.session i).phase.Orderly

theorem Phase.Owes.isOpen {c : Session} (h : c.phase.Owes) : c.IsOpen := by
  constructor <;> intro hp <;> rw [hp] at h <;> exact h

theorem Phase.AtReply.isOpen {c : Session} (h : c.phase.AtReply) : c.IsOpen := by
  constructor <;> intro hp <;> rw [hp] at h <;> exact h

/-- A session that is at a reply with a full queue waits for itself. -/
theorem selfBlocked_of_atReply (h : (n.session i).phase.AtReply) (hroom : ¬ n.Room i) :
    n.SelfBlocked i := by
  refine ⟨?_, Nat.not_lt.1 hroom⟩
  generalize (n.session i).phase = p at h
  match p with
  | .handling (.reply msg :: ops) ok => exact ⟨msg, ops, ok, rfl⟩

/-- The session gets to its send. -/
theorem stuck_sends (h : n.Stuck i) : ∃ ls n', Run (Step x) n ls n' ∧ n'.HubBlocked i ∧
    ((∃ a ops ok, (n'.session i).phase = .handling (.send a :: ops) ok) ∨
      (n'.session i).phase = .closing) := by
  have howes := h.owes
  have hord := h.orderly
  cases hp : (n.session i).phase with
  | absent => rw [hp] at howes; exact howes.elim
  | select => rw [hp] at howes; exact howes.elim
  | ended => rw [hp] at howes; exact howes.elim
  | closing => exact ⟨[], n, Run.nil, h.hub, Or.inr hp⟩
  | handling ops ok =>
    rw [hp] at howes hord
    rcases hord with ⟨hsends, hok⟩ | ⟨rfl, hno, -⟩
    · cases ops with
      | cons op ops =>
        obtain ⟨a, rfl⟩ := hsends op List.mem_cons_self
        exact ⟨[], n, Run.nil, h.hub, Or.inl ⟨a, ops, ok, hp⟩⟩
      | nil =>
        rcases howes with ⟨a, ha⟩ | rfl
        · simp at ha
        · -- the text has failed: the session leaves its loop
          have hfinish : Step x n (.finish i) (n.goto i .closing) := Step.finish hp
          obtain ⟨hhead, -, hfull⟩ := h.hub
          refine ⟨_, _, Run.single hfinish, ⟨hhead, ?_, ?_⟩, Or.inr ?_⟩
          · rw [net_session_goto]; exact ⟨by simp, by simp⟩
          · rw [net_session_goto]; exact hfull
          · rw [net_session_goto]
    · rcases howes with ⟨a, ha⟩ | h
      · exact absurd ha (hno a)
      · cases h

/-- **From a stuck session to a circular wait.** -/
theorem circularWait_of_stuck (hn : n.Finite) (h : n.Stuck i) :
    ∃ ls n', Run (Step x) n ls n' ∧ n'.CircularWait := by
  obtain ⟨ls₁, n₁, hrun₁, ⟨hhead, hopen, hfull⟩, hsend⟩ := stuck_sends (x := x) h
  have hn₁ : n₁.Finite := Run.inv (P := Net.Finite) hn (fun _ _ _ hn hst => finite_step hn hst) hrun₁
  obtain ⟨ls₂, n₂, hrun₂, hact, hs, hi⟩ := actions_filled (x := x) hn₁ hopen.1
  refine ⟨_, n₂, hrun₁.append hrun₂, Or.inr ⟨i, ⟨?_, ?_, ?_⟩, ?_, hact⟩⟩
  · rw [hs]; exact hhead
  · rw [hi]; exact hopen
  · rw [hi]; exact hfull
  · rw [hi]; exact hsend

/-! ## Steps against the guard -/

/-- The hub answers an action that is answered, to its session. -/
theorem reply_some (ms : List HubMsg) (a : ChannelAction) (h : (Hub.run x ms).Answers a) :
    ∃ msg, (actionHandle a.id a.action (Hub.run x ms)).2 = some (⟨a.id⟩, msg) := by
  have hsome : ∃ m, (actionHandle a.id a.action (Hub.run x ms)).2 = some m := by
    rcases a.cases with ⟨id, s, rfl⟩ | ⟨id, t, rfl⟩
    · unfold actionHandle
      simp [ChannelAction.subscribe, lookup_userList_subscribe]
    · cases t with
      | none => exact h.elim
      | some s =>
        obtain ⟨u, hu⟩ := Finmap.mem_iff.1 (show id ∈ (Hub.run x ms).userList from h)
        unfold actionHandle
        simp [ChannelAction.unsubscribe, lookup_userList_unsubscribe, hu]
  obtain ⟨⟨tx, msg⟩, hm⟩ := hsome
  obtain rfl : tx = ⟨a.id⟩ := (reply_own ms a hm).1
  exact ⟨msg, hm⟩

/-- The hub turns to a send to a session with a full queue. -/
theorem stuck_of_turn (hn : n.Free) {msg : String} {rest : List (TxJSON × String)}
    (hs : n'.sending = (⟨i⟩, msg) :: rest) (hi : n'.session i = n.session i) (hr : ¬ n.Ready i) :
    n'.Stuck i := by
  obtain ⟨howes, hroom⟩ := not_forall.1 hr
  have hopen := howes.isOpen
  have hord := hn.orderly i
  rw [← hi] at howes hopen hord
  refine ⟨⟨⟨msg, rest, hs⟩, hopen, ?_⟩, howes, hord⟩
  rw [hi]
  exact Nat.not_lt.1 hroom

/-- **The hub turns to the next of its sends**, to a session that is not ready for it. -/
theorem circularWait_of_next (hfin : n'.Finite) (hn : n.Free)
    (hsame : ∀ j, ¬ n.Ready j → n'.session j = n.session j)
    (hg : ¬ ∀ m ∈ n'.sending.head?, n.Ready m.1.session) :
    ∃ ls n'', Run (Step x) n' ls n'' ∧ n''.CircularWait := by
  simp only [not_forall] at hg
  obtain ⟨⟨⟨j⟩, msg⟩, hm, hr⟩ := hg
  obtain ⟨rest, hs⟩ := List.head?_eq_some_iff.1 hm
  exact circularWait_of_stuck hfin (stuck_of_turn hn hs (hsame j hr) hr)

/-- A session with a full queue comes to a phase in which it has to send, while the hub is
at a send to it. -/
theorem stuck_of_goto {p : Phase} (hs : ∃ msg rest, n.sending = (⟨i⟩, msg) :: rest)
    (hroom : ¬ n.Room i) (howes : p.Owes) (hord : p.Orderly) : (n.goto i p).Stuck i := by
  have hsession : (n.goto i p).session i = { n.session i with phase := p } := net_session_goto ..
  have howes' : ((n.goto i p).session i).phase.Owes := by rw [hsession]; exact howes
  refine ⟨⟨hs, howes'.isOpen, ?_⟩, howes', ?_⟩
  · rw [hsession]; exact Nat.not_lt.1 hroom
  · rw [hsession]; exact hord

/-- The guard of a send, where the item is known. -/
theorem guard_push_iff {tx : TxJSON} {msg : String} {rest : List (TxJSON × String)}
    (hs : n.sending = (tx, msg) :: rest) :
    Guard x n .push ↔
      ((n.session tx.session).phase.AtReply → (n.session tx.session).rxJson.length + 1 < jsonCap) ∧
        ∀ m ∈ rest.head?, n.Ready m.1.session := by
  refine ⟨fun hg => hg tx msg rest hs, fun hboth tx' msg' rest' hs' => ?_⟩
  obtain ⟨hhead, rfl⟩ := List.cons.inj (hs.symm.trans hs')
  obtain ⟨rfl, rfl⟩ := Prod.mk.inj hhead
  exact hboth

/-- **A step against the guard**, after a guarded run, has a continuation that reaches a circular
wait. -/
theorem circularWait_of_not_guard (h : Run (Guarded (Step x) (Guard x)) Net.init ls n)
    (hst : Step x n l n') (hg : ¬ Guard x n l) :
    ∃ ls' n'', Run (Step x) n' ls' n'' ∧ n''.CircularWait := by
  have hn := free_run h
  obtain ⟨ms, hms⟩ := hub_run_of_net h.of_guarded
  have hfin : n'.Finite := finite_step (finite_run h.of_guarded) hst
  have hself : ∀ i, (n'.session i).phase.AtReply → ¬ n'.Room i →
      ∃ ls' n'', Run (Step x) n' ls' n'' ∧ n''.CircularWait := fun i hr hroom =>
    ⟨[], n', Run.nil, Or.inl ⟨i, selfBlocked_of_atReply hr hroom⟩⟩
  cases hst with
  | @text i json hp =>
    simp only [Guard, not_and_or, Classical.not_imp] at hg
    rcases hg with ⟨hr, hroom⟩ | ⟨howes, ⟨msg, rest, hs⟩, hroom⟩
    · refine hself i ?_ ?_
      · rw [net_session_goto]; exact hr
      · unfold Net.Room; rw [net_session_goto]; exact hroom
    · exact circularWait_of_stuck hfin
        (stuck_of_goto ⟨msg, rest, hs⟩ hroom howes (orderly_jsonHandle json i))
  | @leave i hp =>
    simp only [Guard, Classical.not_imp] at hg
    obtain ⟨hs, hroom⟩ := hg
    exact circularWait_of_stuck hfin (stuck_of_goto hs hroom trivial trivial)
  | @takeAction a rest hs ha =>
    simp only [Guard, not_forall] at hg
    obtain ⟨a', rest', ha', hans, hr⟩ := hg
    obtain ⟨rfl, rfl⟩ := List.cons.inj (ha.symm.trans ha')
    obtain ⟨msg, hm⟩ := reply_some ms a (hms ▸ hans)
    rw [← hms] at hm
    exact circularWait_of_stuck hfin (stuck_of_turn hn (by rw [hm]; rfl) rfl hr)
  | @takeData s mt d rest order hs hd ho =>
    exact circularWait_of_next hfin hn (fun _ _ => rfl) hg
  | @push tx msg rest hs hopen hlt =>
    rcases not_and_or.1 (mt (guard_push_iff hs).2 hg) with hg | hg
    · obtain ⟨hr, hroom⟩ := not_forall.1 hg
      refine hself tx.session ?_ ?_
      · exact (congrArg Session.phase (net_session_pushJson n tx.session msg)).symm ▸ hr
      · unfold Net.Room
        show ¬ ((n.pushJson tx.session msg).session tx.session).rxJson.length < jsonCap
        rw [net_session_pushJson, List.length_append]
        exact hroom
    · -- a session that is not ready has no room, and this one has
      have hsame : ∀ j, ¬ n.Ready j → (n.pushJson tx.session msg).session j = n.session j := by
        intro j hr
        have hne : j ≠ tx.session := by
          rintro rfl
          exact hr fun _ => hlt
        exact (Net.session_set ..).trans (if_neg hne)
      exact circularWait_of_next hfin hn hsame hg
  | @drop tx msg rest hs hopen =>
    rcases not_and_or.1 (mt (guard_push_iff hs).2 hg) with hg | hg
    · obtain ⟨hr, -⟩ := not_forall.1 hg
      exact absurd hr.isOpen hopen
    · exact circularWait_of_next hfin hn (fun _ _ => rfl) hg
  | @history i msg hsp hopen hlt =>
    simp only [Guard, Classical.not_imp] at hg
    obtain ⟨hneeds, hroom⟩ := hg
    have hfull : ¬ ((n.pushJson i msg).session i).rxJson.length < jsonCap := by
      rw [net_session_pushJson, List.length_append]
      exact hroom
    have hphase : ((n.pushJson i msg).session i).phase = (n.session i).phase := by
      rw [net_session_pushJson]
    rcases hneeds with hr | ⟨⟨msg', rest, hs⟩, howes⟩
    · exact hself i (hphase ▸ hr) hfull
    · rw [← hphase] at howes
      have hord := hn.orderly i
      rw [← hphase] at hord
      exact circularWait_of_stuck hfin
        ⟨⟨⟨msg', rest, hs⟩, howes.isOpen, Nat.not_lt.1 hfull⟩, howes, hord⟩
  | _ => exact absurd trivial hg

end CryptoMarket.Replay
