import CryptoMarket.Publisher.Steps

/-!
# Publisher server: the two tables agree

* `excl_run`: along every run each mutex has at most one holder.
* `noResponses_run`: no client ever has a partial response.
* `refOK_run`: every connection id in a topic's set, and every id a thread works on, is a
  key of the client list. The alive check removes a client and its subscriptions while it
  holds both mutexes, so no other thread is working on a client then.
* `references_ok`: so a forwarder misses no client, and an accepted client is in no topic.
-/

namespace CryptoMarket.Publisher

variable {Conn : Type} {q : Quiche Conn} {ipcs : List String} {rt : Bool} {s s' : Server Conn}
  {l : Label} {ls : List Label} {cid : ConnectionId}

/-- **Mutual exclusion.** -/
theorem excl_run (h : Runs q ipcs rt ls s) : Excl Pc.Holds s.pc := by
  refine Run.inv (P := fun s => Excl Pc.Holds s.pc) ?_ ?_ h
  · intro m t t' ht
    cases t <;> simp [Server.init, Pc.Holds, Pc.held] at ht
  · intro s l s' hex hst
    obtain ⟨t, p, hm⟩ := hst.moves
    rw [hm.pc]
    exact hex.update hm.locks

/-! ## No partial responses -/

/-- No client has a partial response. -/
def Server.NoResponses (s : Server Conn) : Prop :=
  ∀ cid c, s.clientList.lookup cid = some c → c.partialResponses = ∅

theorem lookup_retainClients {clients : ClientList Conn} {c : Client Conn} :
    (retainClients q clients).lookup cid = some c ↔
      clients.lookup cid = some c ∧ q.isClosed c.conn = false := by
  unfold retainClients
  rw [HashMap.lookup_filter, Option.filter_eq_some_iff]
  simp

theorem noResponses_touches (h : s.NoResponses) (ht : Touches q ipcs s s') : s'.NoResponses := by
  have hins : ∀ {cid : ConnectionId} {c' : Client Conn}, s'.clientList = s.clientList.insert cid c' →
      c'.partialResponses = ∅ → s'.NoResponses := by
    intro cid c' hl hr i d hd
    rw [hl, HashMap.lookup_insert_eq] at hd
    split at hd
    · rw [← Option.some.inj hd]; exact hr
    · exact h i d hd
  cases ht with
  | nothing hl _ => intro i d hd; rw [hl] at hd; exact h i d hd
  | client hc hg hl _ => exact hins hl (hg.responses.trans (h _ _ hc))
  | accept _ hr _ hl _ => exact hins hl hr
  | commands _ _ hc hg hl _ => exact hins hl (hg.responses.trans (h _ _ hc))
  | retain _ _ hl _ =>
    intro i d hd
    rw [hl, lookup_retainClients] at hd
    exact h i d hd.1
  | register hl _ => intro i d hd; rw [hl] at hd; exact h i d hd

theorem noResponses_run (h : Runs q ipcs rt ls s) : s.NoResponses := by
  refine Run.inv (P := Server.NoResponses) ?_ ?_ h
  · intro i d hd; simp [Server.init] at hd
  · intro s l s' hn hst
    exact noResponses_touches hn (hst.touches hn)

/-- **What a step of a run does to the tables.** -/
theorem touches_run (h : Runs q ipcs rt ls s) (hst : Step q ipcs rt s l s') : Touches q ipcs s s' :=
  hst.touches (noResponses_run h)

/-! ## References -/

/-- The commands of a client put no other connection into a topic. -/
theorem lookup_runActions {stream : StreamId} : ∀ (actions : List String) {c : Client Conn}
    {sub : ClientSubscribe} {topic : String} {cids : HashSet ConnectionId},
    (runActions q stream cid actions (c, sub)).2.lookup topic = some cids →
      ∃ cids', sub.lookup topic = some cids' ∧ ∀ i ∈ cids, i ∈ cids' ∨ i = cid := by
  intro actions
  induction actions with
  | nil => intro c sub topic cids h; exact ⟨cids, h, fun i hi => Or.inl hi⟩
  | cons action actions ih =>
    intro c sub topic cids h
    unfold runActions at h
    split at h
    · rename_i name t _
      -- the rest of the commands runs on the table after this one
      have hrest : ∃ cids₁, (subCommand cid name t sub).2.lookup topic = some cids₁ ∧
          ∀ i ∈ cids, i ∈ cids₁ ∨ i = cid := by
        dsimp only at h
        split at h <;> exact ih h
      obtain ⟨cids₁, h₁, hsub⟩ := hrest
      obtain ⟨cids₂, h₂, hsub'⟩ := lookup_subCommand h₁
      refine ⟨cids₂, h₂, fun i hi => ?_⟩
      rcases hsub i hi with hi | hi
      · exact hsub' i hi
      · exact Or.inr hi
    · exact ⟨cids, h, fun i hi => Or.inl hi⟩

theorem lookup_registerTopics_eq {t : String} : ∀ (ipcs : List String) (sub : ClientSubscribe),
    (registerTopics ipcs sub).lookup t = if t ∈ ipcs then some ∅ else sub.lookup t := by
  intro ipcs
  induction ipcs with
  | nil => intro sub; rfl
  | cons ipc ipcs ih =>
    intro sub
    have hrest := ih (sub.insert ipc ∅)
    rw [HashMap.lookup_insert_eq] at hrest
    refine hrest.trans ?_
    by_cases ht : t ∈ ipcs
    · simp [ht]
    · by_cases hi : t = ipc <;> simp [ht, hi]

theorem lookup_registerTopics (ipcs : List String) {sub : ClientSubscribe} {topic : String}
    {cids : HashSet ConnectionId} (h : (registerTopics ipcs sub).lookup topic = some cids) :
    cids = ∅ ∨ sub.lookup topic = some cids := by
  rw [lookup_registerTopics_eq] at h
  split at h
  · exact Or.inl (Option.some.inj h).symm
  · exact Or.inr h

theorem lookup_retainSubs {clients : ClientList Conn} {sub : ClientSubscribe} {topic : String}
    {cids : HashSet ConnectionId} (h : (retainSubs q clients sub).lookup topic = some cids) :
    ∃ cids', sub.lookup topic = some cids' ∧ ∀ i ∈ cids, i ∈ cids' ∧
      ∀ c, clients.lookup i = some c → q.isClosed c.conn = false := by
  unfold retainSubs at h
  rw [HashMap.lookup_mapValues] at h
  obtain ⟨cids', hl, rfl⟩ := Option.map_eq_some_iff.1 h
  refine ⟨cids', hl, fun i hi => ?_⟩
  obtain ⟨hi, hopen⟩ := Finset.mem_filter.1 hi
  refine ⟨hi, fun c hc => ?_⟩
  rw [hc] at hopen
  simpa using hopen

/-- Every connection id in a topic and every id a thread works on is in the client list. -/
structure RefOK (s : Server Conn) : Prop where
  subs : ∀ topic cids, s.clientSubscribe.lookup topic = some cids → ∀ cid ∈ cids, cid ∈ s.clientList
  refs : ∀ t, ∀ cid ∈ (s.pc t).refs, cid ∈ s.clientList

/-- **A step keeps the references.** -/
theorem refOK_step (hex : Excl Pc.Holds s.pc) (ht : Touches q ipcs s s') (hst : Step q ipcs rt s l s')
    (hok : RefOK s) : RefOK s' := by
  obtain ⟨t, p, hm⟩ := hst.moves
  -- if no client is lost, the threads' references stay good
  have hrefs : (∀ i ∈ s.clientList, i ∈ s'.clientList) →
      ∀ u, ∀ i ∈ (s'.pc u).refs, i ∈ s'.clientList := by
    intro hsub u i hi
    rcases hm.refs_of hi with hi | hi | ⟨topic, cids, hl, hi⟩
    · exact hsub i (hok.refs u i hi)
    · exact hi
    · exact hsub i (hok.subs topic cids hl i hi)
  have hins : ∀ {cid : ConnectionId} {c' : Client Conn}, s'.clientList = s.clientList.insert cid c' →
      ∀ i ∈ s.clientList, i ∈ s'.clientList := by
    intro cid c' hl i hi
    rw [hl]
    exact Finmap.mem_insert.2 (Or.inr hi)
  cases ht with
  | nothing hl hsub =>
    refine ⟨fun topic cids h i hi => ?_, hrefs fun i hi => by rw [hl]; exact hi⟩
    rw [hl]
    rw [hsub] at h
    exact hok.subs topic cids h i hi
  | client hc hg hl hsub =>
    refine ⟨fun topic cids h i hi => ?_, hrefs (hins hl)⟩
    rw [hsub] at h
    exact hins hl i (hok.subs topic cids h i hi)
  | accept hnew hr hw hl hsub =>
    refine ⟨fun topic cids h i hi => ?_, hrefs (hins hl)⟩
    rw [hsub] at h
    exact hins hl i (hok.subs topic cids h i hi)
  | @commands cid c c' stream actions hc hg hl hsub =>
    refine ⟨fun topic cids h i hi => ?_, hrefs (hins hl)⟩
    rw [hsub] at h
    obtain ⟨cids', hl', hin⟩ := lookup_runActions actions h
    rcases hin i hi with hi | rfl
    · exact hins hl i (hok.subs topic cids' hl' i hi)
    · rw [hl]
      exact Finmap.mem_insert.2 (Or.inl rfl)
  | retain hpc hpc' hl hsub =>
    constructor
    · intro topic cids h i hi
      rw [hsub] at h
      obtain ⟨cids', hl', hin⟩ := lookup_retainSubs h
      obtain ⟨hi', hopen⟩ := hin i hi
      obtain ⟨c, hc⟩ := Finmap.mem_iff.1 (hok.subs topic cids' hl' i hi')
      rw [hl]
      exact Finmap.mem_of_lookup_eq_some (lookup_retainClients.2 ⟨hc, hopen c hc⟩)
    · -- the alive check holds the list, so no other thread works on a client
      intro u i hi
      rw [hpc'] at hi
      by_cases hu : u = .aliveCheck
      · rw [hu, Function.update_self] at hi
        simp [Pc.refs] at hi
      · rw [Function.update_of_ne hu] at hi
        have hcheck : (s.pc .aliveCheck).Holds .clientList := by simp [hpc, Pc.Holds, Pc.held]
        exact absurd (hex .clientList u .aliveCheck (Pc.holds_of_refs hi) hcheck) hu
  | register hl hsub =>
    refine ⟨fun topic cids h i hi => ?_, hrefs fun i hi => by rw [hl]; exact hi⟩
    rw [hsub] at h
    rw [hl]
    rcases lookup_registerTopics ipcs h with rfl | h
    · simp at hi
    · exact hok.subs topic cids h i hi

theorem refOK_run (h : Runs q ipcs rt ls s) : RefOK s := by
  refine Run.hist_inv (P := fun _ s => RefOK s) ?_ ?_ h
  · refine ⟨fun topic cids h => by simp [Server.init] at h, fun t i hi => ?_⟩
    cases t <;> simp [Server.init, Pc.refs] at hi
  · intro ls s l s' hr hok hst
    exact refOK_step (excl_run hr) (touches_run hr hst) hst hok

/-- A step that adds a client leaves the subscriptions alone. -/
theorem subscribe_eq_of_new (ht : Touches q ipcs s s') (hnew : cid ∉ s.clientList)
    (hin : cid ∈ s'.clientList) : s'.clientSubscribe = s.clientSubscribe := by
  cases ht with
  | nothing _ hsub => exact hsub
  | client _ _ _ hsub => exact hsub
  | accept _ _ _ _ hsub => exact hsub
  | commands _ _ hc _ hl _ =>
    rw [hl] at hin
    rcases Finmap.mem_insert.1 hin with rfl | hin
    · exact absurd (Finmap.mem_of_lookup_eq_some hc) hnew
    · exact absurd hin hnew
  | retain _ _ hl _ =>
    rw [hl] at hin
    obtain ⟨c, hc⟩ := Finmap.mem_iff.1 hin
    exact absurd (Finmap.mem_of_lookup_eq_some (lookup_retainClients.1 hc).1) hnew
  | register hl _ => rw [hl] at hin; exact absurd hin hnew

/-- **The tables agree** in every reachable state: a subscribed connection is in the
client list, the client a forwarder is about to write to is there, and a connection that
is accepted has no subscription. -/
theorem references_ok (h : Runs q ipcs rt ls s) :
    (∀ topic cids, s.clientSubscribe.lookup topic = some cids → ∀ cid ∈ cids, cid ∈ s.clientList) ∧
      (∀ topic data cid rest, s.pc (.forwarder topic) = .sending data (cid :: rest) →
        s.clientList.lookup cid ≠ none) ∧
      ∀ l s' cid, Step q ipcs rt s l s' → cid ∉ s.clientList → cid ∈ s'.clientList →
        ∀ topic cids, s'.clientSubscribe.lookup topic = some cids → cid ∉ cids := by
  have hok := refOK_run h
  refine ⟨hok.subs, ?_, ?_⟩
  · intro topic data cid rest hpc hnone
    have hin := hok.refs (.forwarder topic) cid (by simp [hpc, Pc.refs])
    exact Finmap.lookup_eq_none.1 hnone hin
  · intro l s' cid hst hnew hin topic cids hl hc
    rw [subscribe_eq_of_new (touches_run h hst) hnew hin] at hl
    exact hnew (hok.subs topic cids hl cid hc)

/-! ## A run with one client -/

/-- A transport whose connections are the chunks they will give: every packet is an Initial
with itself as the token, a new connection is established and brings one command, and
`stream_send` accepts as many bytes as `accepts` says. -/
def topicQuiche (accepts : Bytes → ℕ) (command : String) : Quiche (List Bytes) where
  headerFromSlice pkt _ := some ⟨.initial, 1, List.replicate 20 7, [], some pkt⟩
  versionIsSupported version := version == 1
  negotiateVersion _ _ := some []
  retry _ _ _ token _ := some token
  accept _ _ _ := some [utf8 command]
  recv conn pkt _ := (.ok pkt.length, conn)
  isInEarlyData _ := false
  isEstablished _ := true
  isClosed _ := false
  writable _ := [0]
  readable _ := [0]
  streamRecv conn _ := match conn with
    | [] => (.error .done, [])
    | buf :: rest => (.ok (buf, false), rest)
  streamSend conn _ data _ := (.ok (accepts data), conn)
  send conn := (.error .done, conn)
  close conn _ _ _ := conn
  hmacSign _ := List.replicate 32 0

/-- The command subscribes to the topic `btc`. -/
abbrev sampleQuiche (accepts : Bytes → ℕ) : Quiche (List Bytes) := topicQuiche accepts "sub@btc"

def sampleAddr : SocketAddr := ⟨.v4 #v[10, 0, 0, 1], 4433⟩

def sampleCid : ConnectionId := List.replicate 20 7

/-- The token of a Retry to `sampleAddr` for `sampleCid`. -/
def sampleToken : Bytes := tokenPrefix ++ sampleAddr.ip.octets ++ sampleCid

/-- The server of one topic with at most one client: where the threads are, the client, and
who is in the topic. -/
structure Server.At (s : Server (List Bytes)) (topic : String) (connection aliveCheck forwarder : Pc)
    (client : Option (Client (List Bytes))) (cids : HashSet ConnectionId) : Prop where
  connection : s.pc .connection = connection
  aliveCheck : s.pc .aliveCheck = aliveCheck
  send : s.pc .send = .sent
  forwarder : s.pc (.forwarder topic) = forwarder
  others : ∀ other, other ≠ topic → s.pc (.forwarder other) = .idle
  client : s.clientList.lookup sampleCid = client
  topic : s.clientSubscribe.lookup topic = some cids
  poisoned : ∀ m, s.poisoned m = false
  spawned : s.spawned = true

section

variable {s : Server (List Bytes)} {topic command : String} {p a f : Pc}
  {c : Option (Client (List Bytes))} {cids : HashSet ConnectionId} {m : Lock}

/-- What no thread's point has, no thread of the server has. -/
theorem Server.At.forall_not (h : s.At topic p a f c cids) {P : Pc → Prop} (hp : ¬ P p) (ha : ¬ P a)
    (hf : ¬ P f) (hs : ¬ P .sent) (hi : ¬ P .idle) : ∀ t, ¬ P (s.pc t) := by
  intro t
  cases t with
  | connection => rw [h.connection]; exact hp
  | aliveCheck => rw [h.aliveCheck]; exact ha
  | send => rw [h.send]; exact hs
  | forwarder other =>
    by_cases ht : other = topic
    · rw [ht, h.forwarder]; exact hf
    · rw [h.others other ht]; exact hi

theorem Server.At.free (h : s.At topic p a f c cids) (hp : ¬ p.Holds m) (ha : ¬ a.Holds m)
    (hf : ¬ f.Holds m) : s.Free m :=
  h.forall_not (P := (Pc.Holds · m)) hp ha hf (by simp [Pc.Holds, Pc.held])
    (by simp [Pc.Holds, Pc.held])

theorem Server.At.goto_connection (h : s.At topic p a f c cids) (p' : Pc) :
    (s.goto .connection p').At topic p' a f c cids :=
  ⟨rfl, h.aliveCheck, h.send, h.forwarder, h.others, h.client, h.topic, h.poisoned, h.spawned⟩

theorem Server.At.goto_forwarder (h : s.At topic p a f c cids) (p' : Pc) :
    (s.goto (.forwarder topic) p').At topic p a p' c cids := by
  refine ⟨h.connection, h.aliveCheck, h.send, by simp [Server.goto], fun other ht => ?_, h.client,
    h.topic, h.poisoned, h.spawned⟩
  have hne : Thread.forwarder other ≠ .forwarder topic := fun heq => ht (Thread.forwarder.inj heq)
  exact (Function.update_of_ne hne ..).trans (h.others other ht)

theorem Server.At.setClient (h : s.At topic p a f c cids) (c' : Client (List Bytes)) :
    (s.setClient sampleCid c').At topic p a f (some c') cids :=
  ⟨h.connection, h.aliveCheck, h.send, h.forwarder, h.others, Finmap.lookup_insert _, h.topic,
    h.poisoned, h.spawned⟩

theorem free_init (m : Lock) : (Server.init Conn).Free m := by
  intro t ht
  cases t <;> simp [Server.init, Pc.Holds, Pc.held] at ht

theorem lookup_registered (topic : String) : (registerTopics [topic] ∅).lookup topic = some ∅ :=
  Finmap.lookup_insert _

/-- The server after the topic is registered. -/
def topicStart (topic : String) : Server (List Bytes) where
  clientList := ∅
  clientSubscribe := registerTopics [topic] ∅
  poisoned _ := false
  pc := Function.update (Function.update (Server.init (List Bytes)).pc .send .registering) .send .sent
  spawned := true

theorem at_topicStart (topic : String) : (topicStart topic).At topic .polling .sleeping .idle none ∅ :=
  ⟨rfl, rfl, rfl, rfl, fun _ _ => rfl, rfl, lookup_registered topic, fun _ => rfl, rfl⟩

/-- The steps until the command of a client is read. -/
def topicSteps (command : String) : List Label :=
  [.sendLock, .register, .poll, .lockList,
    .packet sampleToken sampleAddr (.accepted sampleToken sampleCid sampleCid),
    .streamRecv (some (utf8 command))]

abbrev sampleSteps : List Label := topicSteps "sub@btc"

/-- A client is accepted and its command is read. -/
theorem at_lockSub (accepts : Bytes → ℕ) (topic command : String) : ∃ s,
    Runs (topicQuiche accepts command) [topic] true (topicSteps command) s ∧
    s.At topic (.lockSub sampleCid 0 command []) .sleeping .idle (some ⟨[], ∅, []⟩) ∅ := by
  refine ⟨_, Run.cons (Step.sendLock rfl (free_init _)) <| Run.cons (Step.register rfl) <|
    Run.cons (Step.poll rfl) <| Run.cons (Step.lockList rfl
      (((at_topicStart topic).goto_connection .lockList).free (by decide) (by decide) (by decide))) <|
    Run.cons (Step.packet .sent rfl) <| Run.single (Step.streamRead rfl rfl rfl), ?_⟩
  rw [fromUtf8_utf8]
  refine ⟨rfl, rfl, rfl, rfl, fun other _ => rfl, rfl, lookup_registered topic, fun m => ?_, rfl⟩
  cases m <;> rfl

/-- The command is a subscription to the topic. -/
def Subscribes (command topic : String) : Prop :=
  split ';' command = [command] ∧ split '@' command = ["sub", topic]

theorem subscribes_btc : Subscribes "sub@btc" "btc" := ⟨by decide, by decide⟩

/-- The client is subscribed. -/
theorem at_subscribed (accepts : Bytes → ℕ) (h : Subscribes command topic) : ∃ s,
    Runs (topicQuiche accepts command) [topic] true
      (topicSteps command ++ [.lockSub] ++ [.handle] ++ [.streamRecv none] ++ [.sendPackage]) s ∧
    s.At topic .lockList .sleeping .idle (some ⟨[], ∅, []⟩) {sampleCid} := by
  obtain ⟨s, hrun, hat⟩ := at_lockSub accepts topic command
  set Next := Step (topicQuiche accepts command) [topic] true
  have h₁ : Next s .lockSub _ := Step.lockSub hat.connection
    (hat.free (by simp [Pc.Holds, Pc.held]) (by decide) (by decide))
  rw [hat.poisoned, if_neg (by decide)] at h₁
  have hat₁ := hat.goto_connection (.handling sampleCid 0 command [])
  set s₁ := s.goto .connection (.handling sampleCid 0 command [])
  have hcommands : runActions (topicQuiche accepts command) 0 sampleCid (split ';' command)
      (⟨[], ∅, []⟩, s₁.clientSubscribe) =
        (⟨[], ∅, []⟩, s₁.clientSubscribe.insert topic {sampleCid}) := by
    rw [h.1]
    simp only [runActions, h.2, subCommand, hat₁.topic, insert_empty_eq]
  have h₂ : Next s₁ .handle _ := Step.handle hat₁.connection hat₁.client hcommands
  have hat₂ := (hat₁.setClient ⟨[], ∅, []⟩).goto_connection (.reading sampleCid [0])
  set s₂ := { (s₁.setClient sampleCid ⟨[], ∅, []⟩).goto .connection (.reading sampleCid [0]) with
    clientSubscribe := s₁.clientSubscribe.insert topic {sampleCid} }
  have hat₃ : s₂.At topic (.reading sampleCid [0]) .sleeping .idle (some ⟨[], ∅, []⟩) {sampleCid} :=
    ⟨hat₂.connection, hat₂.aliveCheck, hat₂.send, hat₂.forwarder, hat₂.others, hat₂.client,
      Finmap.lookup_insert _, hat₂.poisoned, hat₂.spawned⟩
  have h₃ : Next s₂ (.streamRecv none) _ := Step.streamEnd hat₃.connection hat₃.client rfl
  have hat₄ := (hat₃.setClient ⟨[], ∅, []⟩).goto_connection (.reading sampleCid [])
  have h₄ : Next ((s₂.setClient sampleCid ⟨[], ∅, []⟩).goto .connection (.reading sampleCid []))
      .sendPackage _ := Step.sendPackage [] hat₄.connection hat₄.client rfl
  exact ⟨_, (((hrun.snoc h₁).snoc h₂).snoc h₃).snoc h₄,
    (hat₄.setClient ⟨[], ∅, []⟩).goto_connection .lockList⟩

end

/-- The tables of the run agree. -/
theorem references_ok_sample : ∃ ls s, Runs (sampleQuiche List.length) ["btc"] true ls s ∧
    s.clientSubscribe.lookup "btc" = some {sampleCid} ∧
    ((∀ topic cids, s.clientSubscribe.lookup topic = some cids → ∀ cid ∈ cids, cid ∈ s.clientList) ∧
      (∀ topic data cid rest, s.pc (.forwarder topic) = .sending data (cid :: rest) →
        s.clientList.lookup cid ≠ none) ∧
      ∀ l s' cid, Step (sampleQuiche List.length) ["btc"] true s l s' → cid ∉ s.clientList →
        cid ∈ s'.clientList → ∀ topic cids, s'.clientSubscribe.lookup topic = some cids → cid ∉ cids) := by
  obtain ⟨s, hrun, hat⟩ := at_subscribed List.length subscribes_btc
  exact ⟨_, s, hrun, hat.topic, references_ok hrun⟩

end CryptoMarket.Publisher
