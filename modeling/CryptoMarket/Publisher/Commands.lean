import CryptoMarket.Lib.Log
import CryptoMarket.Publisher.Fragments
import CryptoMarket.Publisher.Frames
import CryptoMarket.Publisher.Retry

/-!
# Publisher server: the subscriptions and the commands

`observe` writes down what a run does to the subscriptions: the connections it accepts, the
topics it registers and the commands that `handle_sub` executes.

* `LastIsSub`: the last command of a client on a topic since it was accepted is a `sub`
  from after the registration of the topic.
* `recorded_run`: in every reachable state the set of a registered topic holds the clients
  of which this is true. The alive check keeps it, because it removes a client from the
  list and from the topics at once, and a connection id that comes back starts anew.
-/

namespace CryptoMarket.Publisher

variable {Conn : Type} {q : Quiche Conn} {ipcs : List String} {rt : Bool} {s s' : Server Conn}
  {l : Label} {ls : List Label} {clients clients' : ClientList Conn} {sub : ClientSubscribe}
  {cid i : ConnectionId} {name topic t : String}

/-- What happens to the subscriptions. -/
inductive Event where
  | accepted (cid : ConnectionId)
  | registered (topic : String)
  /-- `handle_sub` executes a command of a client. -/
  | command (cid : ConnectionId) (name topic : String)
  deriving DecidableEq

variable {log log' : List Event} {e : Event}

/-- The commands that the loop of `handle_sub` comes to. -/
def commands : List String → List (String × String)
  | [] => []
  | action :: actions =>
    match split '@' action with
    | [name, topic] => (name, topic) :: commands actions
    | _ => []

/-- What is observed of a step. -/
def observe (ipcs : List String) (s : Server Conn) : Label → List Event
  | .packet _ _ (.accepted _ _ cid) => [.accepted cid]
  | .register => ipcs.map .registered
  | .handle =>
    match s.pc .connection with
    | .handling cid _ actions _ => (commands (split ';' actions)).map fun c => .command cid c.1 c.2
    | _ => []
  | _ => []

/-- A `sub` or `unsub` of the client on the topic. -/
def Event.Commands (cid : ConnectionId) (topic : String) (e : Event) : Prop :=
  e = .command cid "sub" topic ∨ e = .command cid "unsub" topic

/-- **The last command of the client on the topic** since it was accepted is a `sub`, executed
after the topic was registered. -/
def LastIsSub (cid : ConnectionId) (topic : String) : List Event → Prop :=
  SinceIf (.registered topic ∈ ·) (· = .command cid "sub" topic) fun e =>
    e.Commands cid topic ∨ e = .accepted cid

/-- A server's runs with what is observed. -/
abbrev LoggedRuns (q : Quiche Conn) (ipcs : List String) (rt : Bool) (ls : List Label)
    (s : Server Conn) (log : List Event) : Prop :=
  Run (Logged (Step q ipcs rt) (observe ipcs)) (Server.init Conn, []) ls (s, log)

/-! ## The log -/

/-- **Events of other clients and on other topics** change nothing. -/
theorem lastIsSub_append (h : ∀ e ∈ log', ¬ e.Commands cid topic ∧ e ≠ .accepted cid) :
    LastIsSub cid topic (log ++ log') ↔ LastIsSub cid topic log := by
  refine SinceIf.append_of_other fun e he => ?_
  obtain ⟨hc, ha⟩ := h e he
  exact ⟨fun hs => hc (Or.inl hs), not_or.2 ⟨hc, ha⟩⟩

theorem lastIsSub_accepted : LastIsSub i t (log ++ [.accepted cid]) ↔ LastIsSub i t log ∧ cid ≠ i := by
  rw [LastIsSub, SinceIf.snoc]
  simp [Event.Commands]

/-- What a command of a client does to its own last command. -/
theorem lastIsSub_command : LastIsSub i t (log ++ [.command cid name topic]) ↔
    if i = cid ∧ t = topic ∧ name = "sub" then .registered t ∈ log
    else LastIsSub i t log ∧ ¬ (i = cid ∧ t = topic ∧ name = "unsub") := by
  rw [LastIsSub, SinceIf.snoc]
  split
  · rename_i h
    obtain ⟨rfl, rfl, rfl⟩ := h
    simp [Event.Commands]
  · rename_i h
    have hne : Event.command cid name topic ≠ .command i "sub" t := by
      rintro heq
      cases heq
      exact h ⟨rfl, rfl, rfl⟩
    simp only [Event.Commands, hne, and_false, false_or, reduceCtorEq, or_false, Event.command.injEq]
    refine and_congr_right' (not_congr ?_)
    constructor
    · rintro ⟨rfl, rfl, rfl⟩
      exact ⟨rfl, rfl, rfl⟩
    · rintro ⟨rfl, rfl, rfl⟩
      exact ⟨rfl, rfl, rfl⟩

/-- Without a registration before it, no `sub` counts. -/
theorem not_lastIsSub (h : .registered topic ∉ log) (ipcs : List String) :
    ¬ LastIsSub cid topic (log ++ ipcs.map .registered) := by
  rw [lastIsSub_append]
  · rintro ⟨l₁, e, l₂, rfl, hb, -⟩
    exact h (List.mem_append.2 (Or.inl hb))
  · intro e he
    obtain ⟨ipc, -, rfl⟩ := List.mem_map.1 he
    exact ⟨by simp [Event.Commands], by simp⟩

/-! ## The table -/

/-- **The subscriptions are those of the log.** -/
structure Recorded (clients : ClientList Conn) (sub : ClientSubscribe) (log : List Event) : Prop where
  topics : ∀ topic, topic ∈ sub ↔ .registered topic ∈ log
  subs : ∀ topic cids, sub.lookup topic = some cids →
    ∀ i, i ∈ cids ↔ i ∈ clients ∧ LastIsSub i topic log

theorem Recorded.command (h : Recorded clients sub log) (hcid : cid ∈ clients) (name topic : String) :
    Recorded clients (subCommand cid name topic sub).2 (log ++ [.command cid name topic]) := by
  constructor
  · intro t
    have hkey : t ∈ (subCommand cid name topic sub).2 ↔ t ∈ sub := by
      rw [← Finmap.lookup_isSome, ← Finmap.lookup_isSome, lookup_subCommand_eq, Option.isSome_map]
    rw [hkey, h.topics t]
    simp
  · intro t cids' hl i
    rw [lookup_subCommand_eq] at hl
    obtain ⟨cids, hcids, rfl⟩ := Option.map_eq_some_iff.1 hl
    have hreg : .registered t ∈ log := (h.topics t).1 (Finmap.mem_of_lookup_eq_some hcids)
    have hmem := h.subs t cids hcids i
    rw [lastIsSub_command]
    by_cases ht : t = topic
    · subst ht
      rw [if_pos rfl, mem_commandSet]
      by_cases hi : i = cid ∧ name = "sub"
      · obtain ⟨rfl, rfl⟩ := hi
        simp [hcid, hreg]
      · simp [hi, hmem, and_assoc]
    · simp [ht, hmem]

theorem applyActions_eq (cid : ConnectionId) : ∀ (actions : List String) (sub : ClientSubscribe),
    applyActions cid actions sub =
      (commands actions).foldl (fun sub c => (subCommand cid c.1 c.2 sub).2) sub := by
  intro actions
  induction actions with
  | nil => intro sub; rfl
  | cons action actions ih =>
    intro sub
    rcases hs : split '@' action with _ | ⟨name, _ | ⟨topic, _ | ⟨x, xs⟩⟩⟩ <;>
      simp only [applyActions, commands, hs, List.foldl_nil]
    exact ih _

/-- **`handle_sub`** executes its commands in order. -/
theorem Recorded.commands (h : Recorded clients sub log) (hcid : cid ∈ clients) (actions : List String) :
    Recorded clients (applyActions cid actions sub)
      (log ++ (commands actions).map fun c => .command cid c.1 c.2) := by
  have hrun : ∀ (cs : List (String × String)) (sub : ClientSubscribe) (log : List Event),
      Recorded clients sub log →
        Recorded clients (cs.foldl (fun sub c => (subCommand cid c.1 c.2 sub).2) sub)
          (log ++ cs.map fun c => .command cid c.1 c.2) := by
    intro cs
    induction cs with
    | nil => intro sub log h; simpa using h
    | cons c cs ih =>
      intro sub log h
      have hc := ih _ _ (h.command hcid c.1 c.2)
      rwa [List.append_assoc] at hc
  rw [applyActions_eq]
  exact hrun _ _ _ h

/-- **A connection that is accepted** has executed no command yet. -/
theorem Recorded.accepted (h : Recorded clients sub log) (hnew : cid ∉ clients)
    (hmem : ∀ i, i ∈ clients' ↔ i = cid ∨ i ∈ clients) :
    Recorded clients' sub (log ++ [.accepted cid]) := by
  refine ⟨fun t => ?_, fun t cids hl i => ?_⟩
  · rw [h.topics t]
    simp
  · rw [h.subs t cids hl i, lastIsSub_accepted, hmem i]
    by_cases hi : i = cid
    · simp [hi, hnew]
    · simp [hi, Ne.symm hi]

theorem Recorded.congr (h : Recorded clients sub log) (hmem : ∀ i, i ∈ clients' ↔ i ∈ clients) :
    Recorded clients' sub log :=
  ⟨h.topics, fun t cids hl i => by rw [h.subs t cids hl i, hmem i]⟩

/-- **The alive check** removes a client from the list and from the topics. -/
theorem Recorded.retain (h : Recorded clients sub log) :
    Recorded (retainClients q clients) (retainSubs q clients sub) log := by
  refine ⟨fun t => ?_, fun t cids' hl i => ?_⟩
  · rw [← h.topics t, retainSubs, ← Finmap.lookup_isSome, HashMap.lookup_mapValues, Option.isSome_map,
      Finmap.lookup_isSome]
  · rw [retainSubs, HashMap.lookup_mapValues] at hl
    obtain ⟨cids, hcids, rfl⟩ := Option.map_eq_some_iff.1 hl
    rw [Finset.mem_filter, h.subs t cids hcids i, mem_retainClients]
    cases hc : clients.lookup i with
    | none =>
      have hi : i ∉ clients := Finmap.lookup_eq_none.1 hc
      simp [hi]
    | some c =>
      simp
      tauto

/-- **The registration** of the topics, before which there are none. -/
theorem Recorded.register (h : Recorded clients sub log) (hn : ∀ topic, .registered topic ∉ log)
    (ipcs : List String) :
    Recorded clients (registerTopics ipcs sub) (log ++ ipcs.map .registered) := by
  have hnone : ∀ t, sub.lookup t = none := fun t =>
    Finmap.lookup_eq_none.2 fun ht => hn t ((h.topics t).1 ht)
  refine ⟨fun t => ?_, fun t cids hl i => ?_⟩
  · rw [← Finmap.lookup_isSome, lookup_registerTopics_eq, hnone]
    by_cases ht : t ∈ ipcs <;> simp [ht, hn t]
  · rw [lookup_registerTopics_eq, hnone] at hl
    have hcids : cids = ∅ := by
      split at hl
      · exact (Option.some.inj hl).symm
      · cases hl
    simp [hcids, not_lastIsSub (hn t)]

/-! ## Along a run -/

/-- The subscriptions are those of the log, and nothing is registered before `server_send`
does it. -/
structure SubsOK (s : Server Conn) (log : List Event) : Prop where
  recorded : Recorded s.clientList s.clientSubscribe log
  unregistered : s.pc .send = .sendLock ∨ s.pc .send = .registering → ∀ topic, .registered topic ∉ log

theorem registered_of_observe (h : Event.registered topic ∈ observe ipcs s l) : l = .register := by
  unfold observe at h
  split at h
  · simp at h
  · rfl
  · split at h
    · simp at h
    · simp at h
  · simp at h

/-- A connection is accepted under an id that is not there. -/
theorem not_mem_of_accepted {pkt token : Bytes} {src : SocketAddr} {odcid : ConnectionId}
    (h : Step q ipcs rt s (.packet pkt src (.accepted token odcid cid)) s') : cid ∉ s.clientList := by
  obtain ⟨answer, hev, -⟩ := h.packet_inv
  obtain ⟨hdr, routed, -, hroutes, hrouted⟩ := routes_of_event hev (by simp)
  cases hroutes with
  | accept hnew _ _ _ _ _ =>
    cases hrouted
    exact hnew
  | _ => cases hrouted

theorem recorded_step (hok : SubsOK s log) (h : Step q ipcs rt s l s') :
    Recorded s'.clientList s'.clientSubscribe (log ++ observe ipcs s l) := by
  have hrec := hok.recorded
  -- the steps that neither touch the subscriptions nor the keys of the client list
  have hother : observe ipcs s l = [] → l ≠ .handle → l ≠ .retain → l ≠ .register →
      (∀ pkt src token odcid cid, l ≠ .packet pkt src (.accepted token odcid cid)) →
        Recorded s'.clientList s'.clientSubscribe (log ++ observe ipcs s l) := by
    intro hobs h₁ h₂ h₃ hacc
    have hmem : ∀ i, i ∈ s'.clientList ↔ i ∈ s.clientList := fun i =>
      h.mem_clientList_of_other h₂ fun pkt src token odcid => hacc pkt src token odcid i
    rw [hobs, List.append_nil, h.clientSubscribe_eq h₁ h₂ h₃]
    exact hrec.congr hmem
  cases l with
  | packet pkt src ev =>
    cases ev with
    | accepted token odcid cid =>
      rw [h.clientSubscribe_eq (by simp) (by simp) (by simp)]
      refine hrec.accepted (not_mem_of_accepted h) fun i => ?_
      rw [h.mem_clientList, or_comm]
      simp [Keeps, eq_comm (a := cid)]
    | _ => exact hother rfl (by simp) (by simp) (by simp) (by simp)
  | handle =>
    have hmem : ∀ i, i ∈ s'.clientList ↔ i ∈ s.clientList := fun i =>
      h.mem_clientList_of_other (by simp) (by simp)
    cases h with
    | @handle cid stream actions streams client client' sub hpc hc hrun =>
      have hsub : sub = applyActions cid (split ';' actions) s.clientSubscribe := by
        rw [← runActions_snd, hrun]
      have hcmd := hrec.commands (Finmap.mem_of_lookup_eq_some hc) (split ';' actions)
      rw [← hsub] at hcmd
      have hobs : observe ipcs s .handle =
          (commands (split ';' actions)).map fun c => .command cid c.1 c.2 := by
        simp only [observe, hpc]
      rw [hobs]
      exact hcmd.congr hmem
  | retain =>
    cases h with
    | retain hpc =>
      rw [show observe ipcs s .retain = [] from rfl, List.append_nil]
      exact hrec.retain
  | register =>
    cases h with
    | register hpc =>
      have hreg := hrec.register (hok.unregistered (Or.inr hpc)) ipcs
      dsimp only
      split <;> exact hreg
  | _ => exact hother rfl (by simp) (by simp) (by simp) (by simp)

theorem subsOK_step (hok : SubsOK s log) (h : Step q ipcs rt s l s') :
    SubsOK s' (log ++ observe ipcs s l) := by
  refine ⟨recorded_step hok h, fun hpc topic hm => ?_⟩
  by_cases ht : l.thread = .send
  · -- the thread is before the registration only after its first step
    cases h with
    | sendLock hsend hf =>
      rcases List.mem_append.1 hm with hm | hm
      · exact hok.unregistered (Or.inl hsend) topic hm
      · simp [observe] at hm
    | register hsend =>
      dsimp only at hpc
      split at hpc <;> simp [Server.goto, Server.panic] at hpc
    | _ => simp [Label.thread] at ht
  · rw [h.pc_of_ne (Ne.symm ht)] at hpc
    rcases List.mem_append.1 hm with hm | hm
    · exact hok.unregistered hpc topic hm
    · exact ht (by rw [registered_of_observe hm]; rfl)

/-- **Along every run** the subscriptions are those of the log. -/
theorem recorded_run (h : LoggedRuns q ipcs rt ls s log) :
    Recorded s.clientList s.clientSubscribe log := by
  have hok : SubsOK s log := by
    refine Run.inv (P := fun x => SubsOK x.1 x.2) ?_ ?_ h
    · refine ⟨⟨fun topic => ?_, fun topic cids hl => ?_⟩, by simp⟩
      · simp [Server.init, Finmap.notMem_empty]
      · simp [Server.init] at hl
    · rintro ⟨s, log⟩ l ⟨s', log'⟩ hok ⟨hst, hlog⟩
      simp only at hok hst hlog ⊢
      rw [hlog]
      exact subsOK_step hok hst
  exact hok.recorded

end CryptoMarket.Publisher
