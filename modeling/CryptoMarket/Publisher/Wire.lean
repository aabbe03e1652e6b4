import CryptoMarket.Publisher.Order
import CryptoMarket.Publisher.Receiver
import CryptoMarket.Publisher.Recipients

/-!
# Publisher: what a stream of a client carries

The forwarders of all topics and `handle_sub` write to the streams of a client. A stream carries
the messages of each topic in the order in which the client was handed them, in between
the other topics' and the error replies.

* `carries_step`: what one step writes to the streams.
* `stream_in_order`: so in every run what was written to a stream of a client interleaves, topic
  by topic, messages in the order in which they were published, each at most once, and replies.
-/

namespace CryptoMarket.Publisher

variable {Conn : Type} {q : Quiche Conn} {ipcs : List String} {rt : Bool} {s s' : Server Conn} {l : Label}
  {ls : List Label} {log ev : List DistEvent} {topic : String} {cid : ConnectionId} {stream : StreamId}
  {c c' : Client Conn} {data : Bytes} {out : List Bytes}

/-- An error reply of `handle_sub`. -/
def IsReply (data : Bytes) : Prop := ∃ msg ∈ subErrors, data = errorReply msg

/-- What is written to a client: of each topic what it was handed, and replies. -/
def Carries (log : List DistEvent) (cid : ConnectionId) (out : List Bytes) : Prop :=
  ∃ sent : Option String → List Bytes, Interleaves out sent ∧
    (∀ topic, (sent (some topic)).Sublist (handed log topic cid)) ∧ ∀ data ∈ sent none, IsReply data

theorem carries_nil : Carries log cid [] :=
  ⟨fun _ => [], Interleaves.nil, fun _ => List.nil_sublist _, by simp⟩

theorem Carries.mono (h : Carries log cid out) : Carries (log ++ ev) cid out := by
  obtain ⟨sent, hil, htopics, hreplies⟩ := h
  refine ⟨sent, hil, fun topic => (htopics topic).trans ?_, hreplies⟩
  rw [handed_append]
  exact List.sublist_append_left _ _

/-- A message is handed over. -/
theorem Carries.turn {streams : List StreamId} (h : Carries log cid out) (hs : streams ≠ []) :
    Carries (log ++ [.turn topic cid data streams]) cid (out ++ [data]) := by
  obtain ⟨sent, hil, htopics, hreplies⟩ := h
  refine ⟨_, hil.snoc (some topic) data, fun t => ?_, ?_⟩
  · rw [handed_append]
    by_cases ht : t = topic
    · subst ht
      rw [Function.update_self]
      exact (htopics t).append (by simp [handed, turns, hs])
    · rw [Function.update_of_ne (by simpa using ht)]
      exact (htopics t).trans (List.sublist_append_left _ _)
  · rw [Function.update_of_ne (by simp)]
    exact hreplies

/-- Replies are written. -/
theorem Carries.replies (h : Carries log cid out) {ds : List Bytes} (hds : ∀ d ∈ ds, IsReply d) :
    Carries log cid (out ++ ds) := by
  obtain ⟨sent, hil, htopics, hreplies⟩ := h
  refine ⟨_, hil.append none ds, fun t => ?_, ?_⟩
  · rw [Function.update_of_ne (by simp)]
    exact htopics t
  · rw [Function.update_self]
    exact fun d hd => (List.mem_append.1 hd).elim (hreplies d) (hds d)

/-! ## What is written to one stream -/

theorem sentOn_of_writes {ws : List Write} (hw : c'.writes = c.writes ++ ws) :
    c'.sentOn stream = c.sentOn stream ++ (ws.filter (·.stream = stream)).map Write.data := by
  unfold Client.sentOn
  rw [hw, List.filter_append, List.map_append]

theorem sentOn_congr (hw : c'.writes = c.writes) : c'.sentOn stream = c.sentOn stream := by
  unfold Client.sentOn
  rw [hw]

/-- The commands write replies. -/
theorem sentOn_runActions {actions : List String} {sub sub' : ClientSubscribe} {at_ : StreamId}
    (h : runActions q at_ cid actions (c, sub) = (c', sub')) :
    ∃ ds : List Bytes, c'.sentOn stream = c.sentOn stream ++ ds ∧ ∀ d ∈ ds, IsReply d := by
  have hgrows : c.Grows q IsReply (runActions q at_ cid actions (c, sub)).1 :=
    grows_runActions (fun msg hm => ⟨msg, hm, rfl⟩) actions c sub
  rw [h] at hgrows
  obtain ⟨-, ws, hw, hall⟩ := hgrows
  refine ⟨_, sentOn_of_writes hw, fun d hd => ?_⟩
  obtain ⟨w, hm, rfl⟩ := List.mem_map.1 hd
  exact (hall w (List.mem_of_mem_filter hm)).1

/-- A call of `distribute` writes the data to a stream once or not at all, if no stream is
writable twice. -/
theorem Client.Attempted.sentOn (h : c.Attempted q data c') (stream : StreamId) (hnodup : (q.writable c.conn).Nodup) :
    c'.sentOn stream = c.sentOn stream ∨ c.targets q ≠ [] ∧ c'.sentOn stream = c.sentOn stream ++ [data] := by
  obtain ⟨ws, hw, hdata, hstreams⟩ := h
  have htargets : ws.map Write.stream = c.targets q := hstreams
  have hmap : (ws.map Write.stream).Nodup := by
    rw [hstreams]
    split
    · exact hnodup
    · exact List.nodup_nil
  have hone : (ws.filter (·.stream = stream)).length ≤ 1 := by
    have hcount := List.nodup_iff_count_le_one.1 hmap stream
    rw [List.count, List.countP_map, List.countP_eq_length_filter] at hcount
    simpa [Function.comp_def, beq_eq_decide] using hcount
  have hkept : ∀ w ∈ ws.filter (·.stream = stream), w.data = data := fun w hm =>
    (hdata w (List.mem_of_mem_filter hm)).1
  rw [sentOn_of_writes hw]
  have hmem : ∀ w ∈ ws.filter (·.stream = stream), c.targets q ≠ [] := fun w hm =>
    htargets ▸ List.ne_nil_of_mem (List.mem_map_of_mem (List.mem_of_mem_filter hm))
  generalize ws.filter (·.stream = stream) = kept at hone hkept hmem ⊢
  rcases kept with _ | ⟨w, _ | ⟨w', rest⟩⟩
  · exact Or.inl (List.append_nil _)
  · refine Or.inr ⟨hmem w List.mem_cons_self, ?_⟩
    rw [List.map_singleton, hkept w List.mem_cons_self]
  · simp at hone

/-! ## What a step writes -/

/-- A packet changes one client, and writes nothing. -/
theorem clients_receive (pkt : Bytes) (src : SocketAddr) (answer : SocketAnswer) (hn : s.NoResponses) :
    (s.receive q pkt src answer).2.clientList = s.clientList ∨ ∃ cid c',
      (s.receive q pkt src answer).2.clientList = s.clientList.insert cid c' ∧
        (c'.writes = [] ∨ ∃ c, s.clientList.lookup cid = some c ∧ c'.writes = c.writes) := by
  have hans : (s.answered answer).clientList = s.clientList := by cases answer <;> rfl
  unfold Server.receive
  cases q.headerFromSlice pkt maxConnIdLen with
  | none => exact Or.inl rfl
  | some hdr =>
    have hspec := route_spec (q := q) s.clientList hdr src
    dsimp only
    generalize route q s.clientList hdr src = routed at hspec
    cases hspec with
    | notInitial _ => exact Or.inl rfl
    | negotiate _ => exact Or.inl hans
    | retry _ _ _ => exact Or.inl hans
    | invalidToken _ _ => exact Or.inl rfl
    | invalidDcid _ => exact Or.inl rfl
    | @accept token odcid conn hnew _ _ _ _ _ =>
      obtain ⟨conn', hl, -⟩ := process_eq (q := q) (s := s) hdr.dcid ⟨conn, ∅, []⟩ pkt src rfl
      exact Or.inr ⟨_, _, hl, Or.inl rfl⟩
    | @known cid hcid =>
      obtain ⟨c, hc⟩ := Finmap.mem_iff.1 hcid
      obtain ⟨conn, hl, -⟩ := process_eq (q := q) (s := s) cid c pkt src (hn _ _ hc)
      dsimp only
      rw [hc]
      exact Or.inr ⟨_, _, hl, Or.inr ⟨c, hc, rfl⟩⟩
    | panicked => exact Or.inl rfl

/-- The streams of every client carry what it was handed. -/
def StreamsOK (s : Server Conn) (log : List DistEvent) : Prop :=
  ∀ cid c, s.clientList.lookup cid = some c → ∀ stream, Carries log cid (c.sentOn stream)

theorem StreamsOK.same (h : StreamsOK s log) (hl : s'.clientList = s.clientList) :
    StreamsOK s' (log ++ ev) := by
  intro cid c hc stream
  rw [hl] at hc
  exact (h cid c hc stream).mono

/-- One client changes. -/
theorem StreamsOK.insert (h : StreamsOK s log) (hl : s'.clientList = s.clientList.insert cid c')
    (hc' : ∀ stream, Carries (log ++ ev) cid (c'.sentOn stream)) : StreamsOK s' (log ++ ev) := by
  intro i c hc stream
  rw [hl, HashMap.lookup_insert_eq] at hc
  split at hc
  · next heq =>
    cases hc
    exact heq ▸ hc' stream
  · exact (h i c hc stream).mono

/-- One client changes, and nothing is written to it. -/
theorem StreamsOK.quiet (h : StreamsOK s log) (hl : s'.clientList = s.clientList.insert cid c')
    (hc : s.clientList.lookup cid = some c) (hw : c'.writes = c.writes) : StreamsOK s' (log ++ ev) :=
  h.insert hl fun stream => by
    rw [sentOn_congr hw]
    exact (h cid c hc stream).mono

/-- **What one step writes.** -/
theorem carries_step (hwritable : ∀ conn, (q.writable conn).Nodup) (hn : s.NoResponses) (h : StreamsOK s log)
    (hst : Step q ipcs rt s l s') : StreamsOK s' (log ++ distEvents q s l) := by
  cases hst with
  | poll hpc => exact h.same rfl
  | lockList hpc hf => split <;> exact h.same rfl
  | wouldBlock hpc => exact h.same rfl
  | recvFailed hpc => exact h.same rfl
  | @packet pkt src answer hpc =>
    rcases clients_receive pkt src answer hn with hl | ⟨cid, c', hl, hnew | ⟨c, hc, hw⟩⟩
    · exact h.same hl
    · refine h.insert hl fun stream => ?_
      have hnothing : c'.sentOn stream = [] := by
        rw [Client.sentOn, hnew]
        rfl
      exact hnothing ▸ carries_nil
    · exact h.quiet hl hc hw
  | @streamEnd cid stream streams client error conn hpc hc hr => exact h.quiet rfl hc rfl
  | @streamRead cid stream streams client buf fin conn hpc hc hr => exact h.quiet rfl hc rfl
  | lockSub hpc hf => split <;> exact h.same rfl
  | @handle cid at_ actions streams c c' sub hpc hc hrun =>
    refine h.insert rfl fun stream => ?_
    obtain ⟨ds, hsent, hreplies⟩ : ∃ ds : List Bytes, c'.sentOn stream = c.sentOn stream ++ ds ∧
        ∀ d ∈ ds, IsReply d := sentOn_runActions hrun
    exact hsent ▸ ((h cid c hc stream).replies hreplies).mono
  | sendPackage answers hpc hc hsend => split <;> exact h.quiet rfl hc (sendPackage_frame answers hsend).2
  | wake hpc => exact h.same rfl
  | checkList hpc hf => exact h.same rfl
  | checkSub hpc hf => exact h.same rfl
  | retain hpc =>
    intro cid c hc stream
    exact (h cid c (lookup_retainClients.1 hc).1 stream).mono
  | sendLock hpc hf => split <;> exact h.same rfl
  | register hpc =>
    dsimp only
    split <;> exact h.same rfl
  | message hpc hsp ht => exact h.same rfl
  | disconnect hpc hsp => exact h.same rfl
  | distSub hpc hf => exact h.same rfl
  | distList hpc hf hl hw => split <;> exact h.same rfl
  | @deliver topic data cid rest c c' ok answers hpc hc hd =>
    have hev : distEvents q s (.deliver topic) = [.turn topic cid data (c.targets q)] := by
      simp only [distEvents, hpc, hc]
    have hcarries : ∀ stream, Carries (log ++ distEvents q s (.deliver topic)) cid (c'.sentOn stream) := by
      intro stream
      have hbefore := h cid c hc stream
      rw [hev]
      rcases (attempted_deliverTo hd).sentOn stream (hwritable c.conn) with hsame | ⟨hs, hsent⟩
      · exact hsame ▸ hbefore.mono
      · exact hsent ▸ hbefore.turn hs
    split <;> exact h.insert rfl hcarries
  | missing hpc hc => exact h.same rfl
  | unlock hpc => exact h.same rfl

theorem carries_run (hwritable : ∀ conn, (q.writable conn).Nodup) (h : DistRuns q ipcs rt ls s log) :
    StreamsOK s log := by
  have hall : s.NoResponses ∧ StreamsOK s log := by
    refine Run.inv (P := fun y : Server Conn × List DistEvent => y.1.NoResponses ∧ StreamsOK y.1 y.2)
      ⟨fun cid c hc => ?_, fun cid c hc => ?_⟩ ?_ h
    · simp [Server.init] at hc
    · simp [Server.init] at hc
    rintro ⟨s, log⟩ l ⟨s', log'⟩ ⟨hn, hok⟩ ⟨hst, hlog⟩
    dsimp only at hst hlog hn hok ⊢
    rw [hlog]
    exact ⟨noResponses_touches hn (hst.touches hn), carries_step hwritable hn hok hst⟩
  exact hall.2

/-- **What a stream carries.** In every run, whatever the threads do, if `writable` lists no
stream twice: what was written to a stream of a client since it was accepted interleaves, for
each topic, messages that the client was handed, so messages of the topic in the order in
which they were published, each at most once, and error replies. Without forwarders there are
only the replies. -/
theorem stream_in_order (hwritable : ∀ conn, (q.writable conn).Nodup) (h : DistRuns q ipcs rt ls s log)
    (hc : s.clientList.lookup cid = some c) (stream : StreamId) :
    ∃ sent : Option String → List Bytes, Interleaves (c.sentOn stream) sent ∧
      (∀ topic, (sent (some topic)).Sublist (handed log topic cid) ∧
        (sent (some topic)).Sublist (published ls topic)) ∧
      ∀ data ∈ sent none, IsReply data := by
  obtain ⟨sent, hil, htopics, hreplies⟩ := carries_run hwritable h cid c hc stream
  exact ⟨sent, hil, fun topic => ⟨htopics topic, (htopics topic).trans ((ordered_run h topic).handed cid)⟩,
    hreplies⟩

/-- The one message of the sample run is on the client's stream. -/
theorem stream_in_order_sample : ∃ (s : Server (List Bytes)) (c : Client (List Bytes)),
    DistRuns (sampleQuiche List.length) ["btc"] true (handSteps "btc" "sub@btc" [1, 2, 3]) s
        (handLog "btc" [1, 2, 3]) ∧
      s.clientList.lookup sampleCid = some c ∧ ∃ sent : Option String → List Bytes,
        Interleaves [[1, 2, 3]] sent ∧ (sent (some "btc")).Sublist [[1, 2, 3]] := by
  obtain ⟨s, hrun, hat⟩ := at_handed List.length subscribes_btc [1, 2, 3]
  have hwritable : ∀ conn, ((sampleQuiche List.length).writable conn).Nodup := fun _ => List.nodup_singleton 0
  obtain ⟨sent, hil, htopics, -⟩ := stream_in_order hwritable hrun hat.client 0
  exact ⟨s, _, hrun, hat.client, sent, hil, (htopics "btc").2⟩

end CryptoMarket.Publisher
