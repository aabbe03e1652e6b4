import CryptoMarket.Lib.Log
import CryptoMarket.Publisher.Frames
import CryptoMarket.Publisher.Streams

/-!
# Publisher server: the order of the messages

A forwarder takes the messages of its topic one after the other and gives each client of the
topic's set a turn with each. The log has these turns, with the streams on which
`stream_send` is called (`distEvents`); forwarders run only where tasks can be spawned.

* `ordered_step`: what one step does to the messages of a topic.
* `handed_in_order`: so a client has its turns with the messages of a topic in the order in which
  they were published, at most one with each, whatever the other threads do; as long as the
  forwarder runs, one with each message for which it was in the set; and it is handed those
  at whose turn it has a stream to write to.
-/

namespace CryptoMarket.Publisher

/-- What a forwarder does. -/
inductive DistEvent where
  /-- Under both mutexes it goes over this set. -/
  | round (topic : String) (data : Bytes) (cids : HashSet ConnectionId)
  /-- The turn of a client of the set: `stream_send` is called on these streams. -/
  | turn (topic : String) (cid : ConnectionId) (data : Bytes) (streams : List StreamId)

variable {Conn : Type}

/-- The streams of a client that `distribute` writes to. -/
def Client.targets (q : Quiche Conn) (client : Client Conn) : List StreamId :=
  if q.isEstablished client.conn then q.writable client.conn else []

/-- What a step of a forwarder does. -/
def distEvents (q : Quiche Conn) (s : Server Conn) : Label → List DistEvent
  | .distList topic =>
    match s.pc (.forwarder topic), s.clientSubscribe.lookup topic with
    | .distList data, some cids => if s.poisoned .clientList then [] else [.round topic data cids]
    | _, _ => []
  | .deliver topic =>
    match s.pc (.forwarder topic) with
    | .sending data (cid :: _) =>
      match s.clientList.lookup cid with
      | some client => [.turn topic cid data (client.targets q)]
      | none => []
    | _ => []
  | _ => []

/-- The runs of the server with what the forwarders do. -/
abbrev DistRuns (q : Quiche Conn) (ipcs : List String) (rt : Bool) (ls : List Label) (s : Server Conn)
    (log : List DistEvent) : Prop :=
  Run (Logged (Step q ipcs rt) (distEvents q)) (Server.init Conn, []) ls (s, log)

/-- The messages of a topic that its forwarder has taken. -/
def published (ls : List Label) (topic : String) : List Bytes :=
  ls.filterMap fun
    | .message t data => if t = topic then some data else none
    | _ => none

/-- The messages of a topic with the sets they were for. -/
def rounds (log : List DistEvent) (topic : String) : List (Bytes × HashSet ConnectionId) :=
  log.filterMap fun
    | .round t data cids => if t = topic then some (data, cids) else none
    | _ => none

/-- The messages of a topic for which the client was in the set. -/
def meant (log : List DistEvent) (topic : String) (cid : ConnectionId) : List Bytes :=
  ((rounds log topic).filter fun r => cid ∈ r.2).map Prod.fst

/-- The turns of the client with messages of a topic. -/
def turns (log : List DistEvent) (topic : String) (cid : ConnectionId) : List (Bytes × List StreamId) :=
  log.filterMap fun
    | .turn t c data streams => if t = topic ∧ c = cid then some (data, streams) else none
    | _ => none

/-- The messages of a topic that the client was handed: `stream_send` was called with them. -/
def handed (log : List DistEvent) (topic : String) (cid : ConnectionId) : List Bytes :=
  ((turns log topic cid).filter fun turn => turn.2 ≠ []).map Prod.fst

/-- The message that waits for the mutexes. -/
def Pc.waiting : Pc → List Bytes
  | .distSub data | .distList data => [data]
  | _ => []

/-- The message with which the client is still to have its turn. -/
def Pc.left (cid : ConnectionId) : Pc → List Bytes
  | .sending data rest => if cid ∈ rest then [data] else []
  | _ => []

variable {q : Quiche Conn} {ipcs : List String} {rt : Bool} {s s' : Server Conn} {l : Label}
  {ls : List Label} {log ev : List DistEvent} {topic : String} {cid : ConnectionId}

theorem published_append (ls ms : List Label) :
    published (ls ++ ms) topic = published ls topic ++ published ms topic := List.filterMap_append

theorem rounds_append (log ev : List DistEvent) :
    rounds (log ++ ev) topic = rounds log topic ++ rounds ev topic := List.filterMap_append

theorem meant_append (log ev : List DistEvent) :
    meant (log ++ ev) topic cid = meant log topic cid ++ meant ev topic cid := by
  rw [meant, rounds_append, List.filter_append, List.map_append]
  rfl

theorem turns_append (log ev : List DistEvent) :
    turns (log ++ ev) topic cid = turns log topic cid ++ turns ev topic cid := List.filterMap_append

theorem handed_append (log ev : List DistEvent) :
    handed (log ++ ev) topic cid = handed log topic cid ++ handed ev topic cid := by
  rw [handed, turns_append, List.filter_append, List.map_append]
  rfl

theorem meant_sublist (log : List DistEvent) :
    (meant log topic cid).Sublist ((rounds log topic).map Prod.fst) := List.filter_sublist.map Prod.fst

/-- **The messages of a topic.** -/
structure Ordered (ls : List Label) (log : List DistEvent) (s : Server Conn) (topic : String) : Prop where
  order : ((rounds log topic).map Prod.fst ++ (s.pc (.forwarder topic)).waiting).Sublist (published ls topic)
  client : ∀ cid, ∃ missed, (turns log topic cid).map Prod.fst ++ missed = meant log topic cid ∧
    (s.pc (.forwarder topic) ≠ .dead → missed = (s.pc (.forwarder topic)).left cid)
  nodup : ∀ data rest, s.pc (.forwarder topic) = .sending data rest → rest.Nodup

/-- A step in which the forwarder of the topic gives no turn and takes no set. -/
theorem Ordered.move (hok : Ordered ls log s topic) (hr : rounds ev topic = [])
    (hh : ∀ cid, turns ev topic cid = [])
    (hw : ((s'.pc (.forwarder topic)).waiting).Sublist
      ((s.pc (.forwarder topic)).waiting ++ published [l] topic))
    (hleft : s'.pc (.forwarder topic) ≠ .dead → s.pc (.forwarder topic) ≠ .dead ∧
      ∀ cid, (s'.pc (.forwarder topic)).left cid = (s.pc (.forwarder topic)).left cid)
    (hnd : ∀ data rest, s'.pc (.forwarder topic) = .sending data rest → rest.Nodup) :
    Ordered (ls ++ [l]) (log ++ ev) s' topic := by
  refine ⟨?_, fun cid => ?_, hnd⟩
  · rw [rounds_append, hr, List.append_nil, published_append]
    have hgrow := hok.order.append (List.Sublist.refl (published [l] topic))
    rw [List.append_assoc] at hgrow
    exact ((List.Sublist.refl _).append hw).trans hgrow
  · obtain ⟨missed, hmissed, halive⟩ := hok.client cid
    have hm : meant ev topic cid = [] := by rw [meant, hr]; rfl
    refine ⟨missed, ?_, fun hlive => ?_⟩
    · rw [turns_append, hh, meant_append, hm, List.append_nil, List.append_nil]
      exact hmissed
    · rw [(hleft hlive).2 cid]
      exact halive (hleft hlive).1

/-- A step of another thread. -/
theorem Ordered.other (hok : Ordered ls log s topic) (h : Step q ipcs rt s l s')
    (hl : l.thread ≠ .forwarder topic) : Ordered (ls ++ [l]) (log ++ distEvents q s l) s' topic := by
  have hpc := h.pc_of_ne (Ne.symm hl)
  have hpub : published [l] topic = [] := by
    cases l with
    | message t data =>
      have hne : t ≠ topic := fun heq => hl (by rw [heq]; rfl)
      simp [published, hne]
    | _ => rfl
  have hquiet : rounds (distEvents q s l) topic = [] ∧ ∀ cid, turns (distEvents q s l) topic cid = [] := by
    cases l with
    | distList t =>
      have hne : t ≠ topic := fun heq => hl (by rw [heq]; rfl)
      simp only [distEvents]
      split
      · split
        · exact ⟨rfl, fun _ => rfl⟩
        · exact ⟨by simp [rounds, hne], fun _ => rfl⟩
      · exact ⟨rfl, fun _ => rfl⟩
    | deliver t =>
      have hne : t ≠ topic := fun heq => hl (by rw [heq]; rfl)
      simp only [distEvents]
      split
      · split
        · exact ⟨rfl, fun _ => by simp [turns, hne]⟩
        · exact ⟨rfl, fun _ => rfl⟩
      · exact ⟨rfl, fun _ => rfl⟩
    | _ => exact ⟨rfl, fun _ => rfl⟩
  refine hok.move hquiet.1 hquiet.2 ?_ (fun hlive => ⟨hpc ▸ hlive, fun cid => by rw [hpc]⟩) ?_
  · rw [hpc, hpub, List.append_nil]
  · rw [hpc]
    exact hok.nodup

/-- **A round begins**: the message that waited is the one of the new round. -/
theorem Ordered.round {data : Bytes} {cids : HashSet ConnectionId} {rest : List ConnectionId}
    (hok : Ordered ls log s topic) (hpc : s.pc (.forwarder topic) = .distList data)
    (hwalks : cids.Walks rest) (hpc' : s'.pc (.forwarder topic) = .sending data rest) :
    Ordered (ls ++ [l]) (log ++ [.round topic data cids]) s' topic := by
  have hround : rounds [.round topic data cids] topic = [(data, cids)] := by simp [rounds]
  refine ⟨?_, fun cid => ?_, ?_⟩
  · have hrounds := hok.order
    rw [hpc] at hrounds
    rw [rounds_append, hround, published_append, hpc']
    simpa [Pc.waiting] using hrounds.trans (List.sublist_append_left _ (published [l] topic))
  · obtain ⟨missed, hmissed, halive⟩ := hok.client cid
    have hnone : missed = [] := by
      rw [halive (by simp [hpc]), hpc]
      rfl
    rw [hnone, List.append_nil] at hmissed
    have hmeant : meant [.round topic data cids] topic cid = if cid ∈ rest then [data] else [] := by
      rw [meant, hround]
      by_cases hc : cid ∈ cids
      · simp [hc, hwalks.mem_iff.2 hc]
      · simp [hc, mt hwalks.mem_iff.1 hc]
    have hturn : turns [.round topic data cids] topic cid = [] := rfl
    refine ⟨if cid ∈ rest then [data] else [], ?_, fun _ => by rw [hpc']; rfl⟩
    rw [turns_append, meant_append, hmeant, ← hmissed, hturn, List.append_nil]
  · intro data' rest' h
    rw [hpc'] at h
    cases h
    exact hwalks.nodup

/-- **A client has its turn**: it is the first of those left, and not among the others. The
forwarder goes on or panics at it. -/
theorem Ordered.turn {data : Bytes} {c : ConnectionId} {rest : List ConnectionId} {streams : List StreamId}
    (hok : Ordered ls log s topic) (hpc : s.pc (.forwarder topic) = .sending data (c :: rest))
    (hpc' : s'.pc (.forwarder topic) = .sending data rest ∨ s'.pc (.forwarder topic) = .dead) :
    Ordered (ls ++ [l]) (log ++ [.turn topic c data streams]) s' topic := by
  have hnodup := List.nodup_cons.1 (hok.nodup data (c :: rest) hpc)
  refine ⟨?_, fun cid => ?_, ?_⟩
  · have hwaiting : (s'.pc (.forwarder topic)).waiting = [] := by
      rcases hpc' with h | h <;> rw [h] <;> rfl
    have hsame : rounds (log ++ [.turn topic c data streams]) topic = rounds log topic := by
      rw [rounds_append]
      exact List.append_nil _
    have hrounds := hok.order
    rw [hpc] at hrounds
    rw [hsame, hwaiting, published_append]
    exact hrounds.trans (List.sublist_append_left _ _)
  · obtain ⟨missed, hmissed, halive⟩ := hok.client cid
    rw [halive (by simp [hpc]), hpc] at hmissed
    have hm : meant [.turn topic c data streams] topic cid = [] := rfl
    refine ⟨(Pc.sending data rest).left cid, ?_, fun hlive => by rw [hpc'.resolve_right hlive]⟩
    rw [meant_append, hm, List.append_nil, ← hmissed, turns_append, List.map_append]
    by_cases hcid : c = cid
    · subst hcid
      simp [turns, Pc.left, hnodup.1]
    · simp [turns, Pc.left, hcid, Ne.symm hcid]
  · intro data' rest' h
    rcases hpc' with h' | h'
    · rw [h'] at h
      cases h
      exact hnodup.2
    · rw [h'] at h
      cases h

/-- **One step** of any thread. -/
theorem ordered_step (hok : Ordered ls log s topic) (h : Step q ipcs rt s l s') :
    Ordered (ls ++ [l]) (log ++ distEvents q s l) s' topic := by
  by_cases hl : l.thread = .forwarder topic
  swap
  · exact hok.other h hl
  cases h with
  | @message t data hpc hsp ht =>
    obtain rfl : t = topic := by cases hl; rfl
    have hpub : published [.message t data] t = [data] := by simp [published]
    refine hok.move rfl (fun _ => rfl) ?_ (fun _ => ⟨by simp [hpc], fun cid => ?_⟩) ?_
    · rw [Server.pc_goto, hpub]
      exact List.sublist_append_right _ _
    · rw [Server.pc_goto, hpc]
      rfl
    · simp
  | @disconnect t hpc hsp =>
    obtain rfl : t = topic := by cases hl; rfl
    refine hok.move rfl (fun _ => rfl) ?_ (fun hlive => absurd (Server.pc_goto ..) hlive) ?_
    · rw [Server.pc_goto]
      exact List.nil_sublist _
    · simp
  | @distSub t data hpc hf =>
    obtain rfl : t = topic := by cases hl; rfl
    refine hok.move rfl (fun _ => rfl) ?_ (fun _ => ⟨by simp [hpc], fun cid => ?_⟩) ?_
    · rw [Server.pc_goto, hpc]
      split
      · exact List.sublist_append_left _ _
      · exact List.nil_sublist _
    · rw [Server.pc_goto, hpc]
      split <;> rfl
    · rw [Server.pc_goto]
      split <;> simp
  | @distList t data cids rest hpc hf hcids hwalks =>
    obtain rfl : t = topic := by cases hl; rfl
    by_cases hpo : s.poisoned .clientList = true
    · have hev : distEvents q s (.distList t) = [] := by simp only [distEvents, hpc, hcids, if_pos hpo]
      rw [hev, if_pos hpo]
      refine hok.move rfl (fun _ => rfl) ?_ (fun hlive => absurd (Server.pc_panic ..) hlive) ?_
      · rw [Server.pc_panic]
        exact List.nil_sublist _
      · simp
    · have hev : distEvents q s (.distList t) = [.round t data cids] := by
        simp only [distEvents, hpc, hcids, if_neg hpo]
      rw [hev, if_neg hpo]
      exact hok.round hpc hwalks (Server.pc_goto ..)
  | @deliver t data c rest client client' ok answers hpc hc hd =>
    obtain rfl : t = topic := by cases hl; rfl
    have hev : distEvents q s (.deliver t) = [.turn t c data (client.targets q)] := by
      simp only [distEvents, hpc, hc]
    rw [hev]
    refine hok.turn hpc ?_
    split
    · exact Or.inl (Server.pc_goto ..)
    · exact Or.inr (Server.pc_panic ..)
  | @missing t data c rest hpc hc =>
    obtain rfl : t = topic := by cases hl; rfl
    have hev : distEvents q s (.deliver t) = [] := by simp only [distEvents, hpc, hc]
    rw [hev]
    refine hok.move rfl (fun _ => rfl) ?_ (fun hlive => absurd (Server.pc_panic ..) hlive) ?_
    · rw [Server.pc_panic]
      exact List.nil_sublist _
    · simp
  | @unlock t data hpc =>
    obtain rfl : t = topic := by cases hl; rfl
    refine hok.move rfl (fun _ => rfl) ?_ (fun _ => ⟨by simp [hpc], fun cid => ?_⟩) ?_
    · rw [Server.pc_goto]
      exact List.nil_sublist _
    · rw [Server.pc_goto, hpc]
      rfl
    · simp
  | _ => cases hl

theorem ordered_run (h : DistRuns q ipcs rt ls s log) (topic : String) : Ordered ls log s topic := by
  refine Run.hist_inv (P := fun ls s => Ordered ls s.2 s.1 topic) ?_ ?_ h
  · exact ⟨List.Sublist.refl [], fun _ => ⟨[], rfl, fun _ => rfl⟩, by simp [Server.init]⟩
  · rintro ls ⟨s, log⟩ l ⟨s', log'⟩ - hok ⟨hst, hlog⟩
    rw [hlog]
    exact ordered_step hok hst

/-- The messages of a client's turns are the first that were meant for it. -/
theorem Ordered.turns_prefix (hok : Ordered ls log s topic) (cid : ConnectionId) :
    (turns log topic cid).map Prod.fst <+: meant log topic cid := by
  obtain ⟨missed, hmissed, -⟩ := hok.client cid
  exact ⟨missed, hmissed⟩

/-- What a client is handed was published. -/
theorem Ordered.handed (hok : Ordered ls log s topic) (cid : ConnectionId) :
    (Publisher.handed log topic cid).Sublist (published ls topic) := by
  have hturns : (Publisher.handed log topic cid).Sublist ((turns log topic cid).map Prod.fst) :=
    List.filter_sublist.map Prod.fst
  exact hturns.trans ((hok.turns_prefix cid).sublist.trans
    ((meant_sublist log).trans ((List.sublist_append_left _ _).trans hok.order)))

/-- **The order of the messages.** In every run, whatever the threads do: the rounds of a
topic are for its published messages, in their order and each at most once; a client has its
turns with the messages of the rounds it was in the set of, in this order, at most one with each;
it is handed those at whose turn it was established and had a writable stream, so all of them if
it always had one; and as long as the forwarder runs it lacks at most the turn with the message
that is being handed out. Where no forwarder runs there are no rounds. -/
theorem handed_in_order (h : DistRuns q ipcs rt ls s log) (topic : String) (cid : ConnectionId) :
    ((rounds log topic).map Prod.fst).Sublist (published ls topic) ∧
      (turns log topic cid).map Prod.fst <+: meant log topic cid ∧
      (handed log topic cid).Sublist ((turns log topic cid).map Prod.fst) ∧
      ((∀ turn ∈ turns log topic cid, turn.2 ≠ []) →
        handed log topic cid = (turns log topic cid).map Prod.fst) ∧
      (handed log topic cid).Sublist (published ls topic) ∧
      (s.pc (.forwarder topic) ≠ .dead →
        (turns log topic cid).map Prod.fst ++ (s.pc (.forwarder topic)).left cid = meant log topic cid) := by
  have hok := ordered_run h topic
  obtain ⟨missed, hmissed, halive⟩ := hok.client cid
  refine ⟨(List.sublist_append_left _ _).trans hok.order, hok.turns_prefix cid,
    List.filter_sublist.map Prod.fst, fun hall => ?_, hok.handed cid, fun hlive => halive hlive ▸ hmissed⟩
  rw [handed, List.filter_eq_self.2 fun turn hturn => by simpa using hall turn hturn]

/-! ## A run with one client -/

/-- The steps of a client that subscribes and a message of the topic. -/
def handSteps (topic command : String) (data : Bytes) : List Label :=
  topicSteps command ++ [.lockSub] ++ [.handle] ++ [.streamRecv none] ++ [.sendPackage] ++
    deliverSteps topic data

/-- What the forwarder does. -/
def handLog (topic : String) (data : Bytes) : List DistEvent :=
  [.round topic data {sampleCid}, .turn topic sampleCid data [0]]

/-- The client is handed the message. -/
theorem at_handed (accepts : Bytes → ℕ) {topic command : String} (h : Subscribes command topic) (data : Bytes) :
    ∃ s, DistRuns (topicQuiche accepts command) [topic] true (handSteps topic command data) s
        (handLog topic data) ∧
      s.At topic .lockList .sleeping .idle
        (some ⟨[], ∅, [⟨0, data, false, .ok (accepts data)⟩]⟩) {sampleCid} := by
  obtain ⟨s₀, hrun₀, hat₀⟩ := at_subscribed accepts h
  obtain ⟨s₁, hrun₁, hat₁⟩ := at_distList accepts command hat₀ data
  obtain ⟨s₂, s₃, hlist, hat₂, hdeliver, hat₃⟩ := at_sending accepts command hat₁
  set q := topicQuiche accepts command with hq
  have hround : distEvents q s₁ (.distList topic) = [.round topic data {sampleCid}] := by
    simp only [distEvents, hat₁.forwarder, hat₁.topic, hat₁.poisoned]
    rfl
  have hturn : distEvents q s₂ (.deliver topic) = [.turn topic sampleCid data [0]] := by
    simp only [distEvents, hat₂.forwarder, hat₂.client]
    rfl
  -- until the set is taken no forwarder does anything
  have hquiet : Run (Logged (Step q [topic] true) (distEvents q)) (Server.init (List Bytes), [])
      (topicSteps command ++ [.lockSub] ++ [.handle] ++ [.streamRecv none] ++ [.sendPackage] ++
        [.message topic data, .distSub topic]) (s₁, []) :=
    (hrun₀.append hrun₁).log_quiet [] (by simp [topicSteps, distEvents])
  have h₁ : Logged (Step q [topic] true) (distEvents q) (s₁, []) (.distList topic)
      (s₂, [.round topic data {sampleCid}]) := ⟨hlist, hround.symm⟩
  have h₂ : Logged (Step q [topic] true) (distEvents q) (s₂, [.round topic data {sampleCid}])
      (.deliver topic) (s₃, handLog topic data) := ⟨hdeliver, by rw [hturn]; rfl⟩
  have h₃ : Logged (Step q [topic] true) (distEvents q) (s₃, handLog topic data) (.unlock topic)
      (s₃.goto (.forwarder topic) .idle, handLog topic data) :=
    ⟨Step.unlock hat₃.forwarder, (List.append_nil _).symm⟩
  have hall := hquiet.append (Run.cons h₁ (Run.cons h₂ (Run.single h₃)))
  rw [List.append_assoc] at hall
  exact ⟨_, hall, hat₃.goto_forwarder .idle⟩

/-- The client is handed the one message. -/
theorem handed_in_order_sample : ∃ s : Server (List Bytes),
    DistRuns (sampleQuiche List.length) ["btc"] true (handSteps "btc" "sub@btc" [1, 2, 3]) s
        (handLog "btc" [1, 2, 3]) ∧
      ([[1, 2, 3]] : List Bytes).Sublist (published (handSteps "btc" "sub@btc" [1, 2, 3]) "btc") ∧
      handed (handLog "btc" [1, 2, 3]) "btc" sampleCid = [[1, 2, 3]] ∧
      [[1, 2, 3]] = meant (handLog "btc" [1, 2, 3]) "btc" sampleCid := by
  obtain ⟨s, hrun, hat⟩ := at_handed List.length subscribes_btc [1, 2, 3]
  have hturns : turns (handLog "btc" [1, 2, 3]) "btc" sampleCid = [([1, 2, 3], [0])] := by decide
  obtain ⟨-, -, -, hhanded, hsub, hall⟩ := handed_in_order hrun "btc" sampleCid
  have hdone := hall (by simp [hat.forwarder])
  rw [hat.forwarder, hturns] at hdone
  have heq := hhanded (by simp [hturns])
  rw [hturns] at heq
  rw [heq] at hsub
  exact ⟨s, hrun, hsub, heq, hdone⟩

end CryptoMarket.Publisher
