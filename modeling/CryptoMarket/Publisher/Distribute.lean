import CryptoMarket.Publisher.Recipients

/-!
# Publisher server: one call of `distribute`

A call of `distribute` as a function of the two tables. It goes over the set of its topic
in some order and writes the data to every writable stream of each client that is
established: a client with several writable streams gets it on each.

* `deliver_run`: the loop is what the steps of the forwarder do.
* `distribute_ends`: a call ends without a panic if the mutexes are not poisoned, every
  client of the topic is in the list and the socket does not fail.
* `distribute_writes`: each client of the topic gets the data once on each writable stream,
  and no other client gets anything.
-/

namespace CryptoMarket.Publisher

variable {Conn : Type}

/-- The loop of `distribute`, with what the socket answers to the datagrams of each client:
`false` if it panics, no value if there are more datagrams than answers. -/
def distributeLoop (q : Quiche Conn) (data : Bytes) (answers : ConnectionId → List SocketAnswer) :
    List ConnectionId → ClientList Conn → Option (ClientList Conn × Bool)
  | [], clients => some (clients, true)
  | cid :: sub, clients =>
    match clients.lookup cid with
    | none => some (clients, false)
    | some client =>
      match deliverTo q data (answers cid) client with
      | none => none
      | some (client, false) => some (clients.insert cid client, false)
      | some (client, true) => distributeLoop q data answers sub (clients.insert cid client)

/-- `distribute`, when its loop walks the set of the topic in the order `order`. -/
def distribute (q : Quiche Conn) (poisoned : Lock → Bool) (answers : ConnectionId → List SocketAnswer)
    (order : List ConnectionId) (key : String) (data : Bytes) (clientSub : ClientSubscribe)
    (clients : ClientList Conn) : Option (ClientList Conn × Bool) :=
  if poisoned .clientSubscribe then some (clients, true)
  else
    match clientSub.lookup key with
    | none => some (clients, true)
    | some _ =>
      if poisoned .clientList then some (clients, false)
      else distributeLoop q data answers order clients

variable {q : Quiche Conn} {ipcs : List String} {rt : Bool} {s : Server Conn} {poisoned : Lock → Bool}
  {answers : ConnectionId → List SocketAnswer} {order : List ConnectionId} {topic : String}
  {data : Bytes} {clientSub : ClientSubscribe} {clients clients' : ClientList Conn} {ok : Bool}

/-- **One turn of the loop.** It panics at an id without a client or when the socket fails,
and goes on otherwise. -/
theorem distributeLoop_cons {cid : ConnectionId}
    (h : distributeLoop q data answers (cid :: order) clients = some (clients', ok)) :
    (clients.lookup cid = none ∧ clients' = clients ∧ ok = false) ∨
    ∃ client client', clients.lookup cid = some client ∧
      ((deliverTo q data (answers cid) client = some (client', false) ∧
          clients' = clients.insert cid client' ∧ ok = false) ∨
        (deliverTo q data (answers cid) client = some (client', true) ∧
          distributeLoop q data answers order (clients.insert cid client') = some (clients', ok))) := by
  rw [distributeLoop] at h
  cases hc : clients.lookup cid with
  | none =>
    simp only [hc] at h
    obtain ⟨hclients, hok⟩ := Prod.mk.inj (Option.some.inj h)
    exact Or.inl ⟨rfl, hclients.symm, hok.symm⟩
  | some client =>
    simp only [hc] at h
    cases hd : deliverTo q data (answers cid) client with
    | none => simp only [hd] at h; cases h
    | some result =>
      obtain ⟨client', sent⟩ := result
      simp only [hd] at h
      refine Or.inr ⟨client, client', rfl, ?_⟩
      cases sent with
      | false =>
        obtain ⟨hclients, hok⟩ := Prod.mk.inj (Option.some.inj h)
        exact Or.inl ⟨hd, hclients.symm, hok.symm⟩
      | true => exact Or.inr ⟨hd, h⟩

/-- **The steps of the forwarder** from the beginning of the loop are the loop. -/
theorem deliver_run : ∀ (order : List ConnectionId) {s : Server Conn} {clients' : ClientList Conn} {ok : Bool},
    s.pc (.forwarder topic) = .sending data order →
    distributeLoop q data answers order s.clientList = some (clients', ok) →
    ∃ ls s', Run (Step q ipcs rt) s ls s' ∧ s'.clientList = clients' ∧
      s'.clientSubscribe = s.clientSubscribe ∧
      s'.pc (.forwarder topic) = if ok then .sending data [] else .dead := by
  intro order
  induction order with
  | nil =>
    intro s clients' ok hpc h
    obtain ⟨rfl, rfl⟩ := Prod.mk.inj (Option.some.inj h)
    exact ⟨[], s, Run.nil, rfl, rfl, hpc⟩
  | cons cid order ih =>
    intro s clients' ok hpc h
    obtain ⟨hc, rfl, rfl⟩ | ⟨client, client', hc, ⟨hd, rfl, rfl⟩ | ⟨hd, hrest⟩⟩ := distributeLoop_cons h
    · exact ⟨_, _, Run.single (.missing hpc hc), rfl, rfl, Server.pc_panic ..⟩
    · exact ⟨_, _, Run.single (.deliver (answers cid) hpc hc hd), rfl, rfl, Server.pc_panic ..⟩
    · obtain ⟨ls, s', hrun, hlist, hsub, hend⟩ :=
        ih (s := (s.setClient cid client').goto (.forwarder topic) (.sending data order))
          (Server.pc_goto ..) hrest
      exact ⟨_, s', Run.cons (.deliver (answers cid) hpc hc hd) hrun, hlist, hsub, hend⟩

/-! ## What a call writes -/

/-- The client is as it was, or has been tried with the data. -/
theorem distributeLoop_writes : ∀ (order : List ConnectionId) {clients clients' : ClientList Conn} {ok : Bool},
    order.Nodup → distributeLoop q data answers order clients = some (clients', ok) →
    (∀ i, i ∉ order → clients'.lookup i = clients.lookup i) ∧
    (∀ i, clients'.lookup i = clients.lookup i ∨ ∃ c c', clients.lookup i = some c ∧
      clients'.lookup i = some c' ∧ c.Attempted q data c') ∧
    (ok = true → ∀ i ∈ order, ∃ c c', clients.lookup i = some c ∧ clients'.lookup i = some c' ∧
      c.Attempted q data c') := by
  intro order
  induction order with
  | nil =>
    intro clients clients' ok _ h
    obtain ⟨rfl, rfl⟩ := Prod.mk.inj (Option.some.inj h)
    exact ⟨fun _ _ => rfl, fun _ => Or.inl rfl, fun _ i hi => absurd hi List.not_mem_nil⟩
  | cons cid order ih =>
    intro clients clients' ok hnodup h
    obtain ⟨hcid, hnodup⟩ := List.nodup_cons.1 hnodup
    obtain ⟨-, rfl, rfl⟩ | ⟨client, client', hc, hd⟩ := distributeLoop_cons h
    · exact ⟨fun _ _ => rfl, fun _ => Or.inl rfl, fun hok => absurd hok Bool.false_ne_true⟩
    have hother : ∀ i, i ≠ cid → (clients.insert cid client').lookup i = clients.lookup i :=
      fun i hi => Finmap.lookup_insert_of_ne _ hi
    have hthis : (clients.insert cid client').lookup cid = some client' := Finmap.lookup_insert _
    rcases hd with ⟨hd, rfl, rfl⟩ | ⟨hd, hrest⟩
    · refine ⟨fun i hi => hother i fun heq => hi (heq ▸ List.mem_cons_self), fun i => ?_,
        fun hok => absurd hok Bool.false_ne_true⟩
      by_cases hi : i = cid
      · exact Or.inr ⟨client, client', hi ▸ hc, hi ▸ hthis, attempted_deliverTo hd⟩
      · exact Or.inl (hother i hi)
    · -- the rest of the loop does not come back to this client
      obtain ⟨huntouched, hany, hall⟩ := ih hnodup hrest
      have hdone : clients'.lookup cid = some client' := (huntouched cid hcid).trans hthis
      refine ⟨fun i hi => ?_, fun i => ?_, fun hok i hi => ?_⟩
      · rw [List.mem_cons, not_or] at hi
        rw [huntouched i hi.2, hother i hi.1]
      · by_cases hi : i = cid
        · exact Or.inr ⟨client, client', hi ▸ hc, hi ▸ hdone, attempted_deliverTo hd⟩
        · rw [← hother i hi]
          exact hany i
      · by_cases hi' : i = cid
        · exact ⟨client, client', hi' ▸ hc, hi' ▸ hdone, attempted_deliverTo hd⟩
        · rw [← hother i hi']
          exact hall hok i ((List.mem_cons.1 hi).resolve_left hi')

/-- **What one call writes.** Every client is left as it is or handed the data exactly once on
each of its writable streams, if it is established, and on no other; a client that is not
subscribed to the topic is left as it is; and unless the call panics, or finds
`CLIENT_SUBSCRIBE` poisoned, no client of the topic is left out. -/
theorem distribute_writes (q : Quiche Conn) (poisoned : Lock → Bool)
    (answers : ConnectionId → List SocketAnswer) (order : List ConnectionId) (topic : String)
    (data : Bytes) (clientSub : ClientSubscribe) (clients clients' : ClientList Conn) (ok : Bool)
    (hwalks : ∀ sub, clientSub.lookup topic = some sub → sub.Walks order)
    (h : distribute q poisoned answers order topic data clientSub clients = some (clients', ok)) :
    (∀ i, (∀ sub, clientSub.lookup topic = some sub → i ∉ sub) →
      clients'.lookup i = clients.lookup i) ∧
    (∀ i, clients'.lookup i = clients.lookup i ∨ ∃ c c', clients.lookup i = some c ∧
      clients'.lookup i = some c' ∧ c.Attempted q data c') ∧
    (ok = true → poisoned .clientSubscribe = false → ∀ sub, clientSub.lookup topic = some sub →
      ∀ i ∈ sub, ∃ c c', clients.lookup i = some c ∧ clients'.lookup i = some c' ∧
        c.Attempted q data c') := by
  unfold distribute at h
  split at h
  · next hp =>
    obtain ⟨rfl, rfl⟩ := Prod.mk.inj (Option.some.inj h)
    exact ⟨fun _ _ => rfl, fun _ => Or.inl rfl, fun _ hfree => by simp [hp] at hfree⟩
  · cases hl : clientSub.lookup topic with
    | none =>
      simp only [hl] at h
      obtain ⟨rfl, rfl⟩ := Prod.mk.inj (Option.some.inj h)
      exact ⟨fun _ _ => rfl, fun _ => Or.inl rfl, fun _ _ sub hsub => by cases hsub⟩
    | some sub =>
      have hwalk : sub.Walks order := hwalks sub hl
      simp only [hl] at h
      split at h
      · obtain ⟨rfl, rfl⟩ := Prod.mk.inj (Option.some.inj h)
        exact ⟨fun _ _ => rfl, fun _ => Or.inl rfl, fun hok => absurd hok Bool.false_ne_true⟩
      · obtain ⟨huntouched, hany, hall⟩ := distributeLoop_writes order hwalk.nodup h
        refine ⟨fun i hi => huntouched i ?_, hany, fun hok _ sub' hsub' i hi => hall hok i ?_⟩
        · rw [hwalk.mem_iff]
          exact hi sub rfl
        · obtain rfl := Option.some.inj hsub'
          rwa [hwalk.mem_iff]

/-- The client of the sample run, accepted and with nothing sent yet. -/
def newClient : Client (List Bytes) := ⟨[], ∅, []⟩

/-- The lists with this client, in the topic `btc`. -/
def oneClient : ClientList (List Bytes) := (∅ : ClientList (List Bytes)).insert sampleCid newClient

def oneSub : ClientSubscribe := (∅ : ClientSubscribe).insert "btc" {sampleCid}

theorem oneSub_walks (sub : HashSet ConnectionId) (h : oneSub.lookup "btc" = some sub) :
    sub.Walks [sampleCid] := by
  rw [oneSub, Finmap.lookup_insert] at h
  obtain rfl := Option.some.inj h
  rfl

/-- With one writable stream the client gets the data once. -/
theorem distribute_writes_one : ∃ c c', oneClient.lookup sampleCid = some c ∧
    (oneClient.insert sampleCid ⟨[], ∅, [⟨0, [1, 2, 3], false, .ok 3⟩]⟩).lookup sampleCid = some c' ∧
      c.Attempted (sampleQuiche List.length) [1, 2, 3] c' := by
  have hcall : distribute (sampleQuiche List.length) (fun _ => false) (fun _ => []) [sampleCid] "btc"
      [1, 2, 3] oneSub oneClient =
        some (oneClient.insert sampleCid ⟨[], ∅, [⟨0, [1, 2, 3], false, .ok 3⟩]⟩, true) := by
    rfl
  obtain ⟨-, -, hall⟩ := distribute_writes (sampleQuiche List.length) (fun _ => false) (fun _ => [])
    [sampleCid] "btc" [1, 2, 3] oneSub oneClient _ true oneSub_walks hcall
  exact hall rfl rfl {sampleCid} (Finmap.lookup_insert _) sampleCid (Finset.mem_singleton_self _)

/-- **A client with two writable streams** gets the data twice. -/
theorem distribute_twice : ∃ ws : List Write,
    ((distribute { sampleQuiche List.length with writable := fun _ => [0, 4] } (fun _ => false)
        (fun _ => []) [sampleCid] "btc" [1, 2, 3] oneSub oneClient).bind fun result =>
      (result.1.lookup sampleCid).map Client.writes) = some ws ∧
    ws.map Write.stream = [0, 4] ∧ ws.map Write.data = [[1, 2, 3], [1, 2, 3]] ∧ ws.length ≠ 1 :=
  ⟨_, rfl, rfl, rfl, by decide⟩

/-! ## Calls that end -/

/-- `send` has at most `n` datagrams for a connection. -/
def Quiche.Drains (q : Quiche Conn) : ℕ → Conn → Prop
  | 0, conn => ∃ error conn', q.send conn = (.error error, conn')
  | n + 1, conn => ∀ datagram conn', q.send conn = (.ok datagram, conn') → q.Drains n conn'

/-- **Sending the packets of a client** ends when the datagrams do. -/
theorem sendPackage_ends : ∀ (n : ℕ) (answers : List SocketAnswer) {client : Client Conn},
    q.Drains n client.conn → n ≤ answers.length → .failed ∉ answers →
    ∃ client', sendPackage q answers client = some (client', true) := by
  intro n
  induction n with
  | zero =>
    intro answers client hdrains _ _
    obtain ⟨error, conn', hsend⟩ := hdrains
    unfold sendPackage
    rw [hsend]
    cases error with
    | done => exact ⟨_, rfl⟩
    | other name => exact ⟨_, rfl⟩
  | succ n ih =>
    intro answers client hdrains hlen hfailed
    unfold sendPackage
    obtain ⟨⟨result, conn'⟩, hsend⟩ : ∃ r, q.send client.conn = r := ⟨_, rfl⟩
    rw [hsend]
    cases result with
    | error error =>
      cases error with
      | done => exact ⟨_, rfl⟩
      | other name => exact ⟨_, rfl⟩
    | ok datagram =>
      cases answers with
      | nil => simp at hlen
      | cons answer answers =>
        rw [List.mem_cons, not_or] at hfailed
        cases answer with
        | sent =>
          have hrest : q.Drains n ({ client with conn := conn' } : Client Conn).conn :=
            hdrains _ _ hsend
          exact ih answers hrest (by simpa using hlen) hfailed.2
        | wouldBlock => exact ⟨_, rfl⟩
        | failed => exact absurd rfl hfailed.1

theorem deliverTo_ends {n : ℕ} {cid : ConnectionId} {client : Client Conn}
    (hdrains : q.Drains n (writeData q data client).conn) (hlen : n ≤ (answers cid).length)
    (hfailed : .failed ∉ answers cid) :
    ∃ client', deliverTo q data (answers cid) client = some (client', true) := by
  unfold deliverTo
  split
  · exact sendPackage_ends n _ hdrains hlen hfailed
  · exact ⟨client, rfl⟩

theorem distributeLoop_ends : ∀ (order : List ConnectionId) (clients : ClientList Conn), order.Nodup →
    (∀ i ∈ order, .failed ∉ answers i ∧ ∃ c n, clients.lookup i = some c ∧
      q.Drains n (writeData q data c).conn ∧ n ≤ (answers i).length) →
    ∃ clients', distributeLoop q data answers order clients = some (clients', true) := by
  intro order
  induction order with
  | nil => intro clients _ _; exact ⟨clients, rfl⟩
  | cons cid order ih =>
    intro clients hnodup hall
    obtain ⟨hcid, hnodup⟩ := List.nodup_cons.1 hnodup
    obtain ⟨hfailed, client, n, hc, hdrains, hlen⟩ := hall cid List.mem_cons_self
    obtain ⟨client', hd⟩ := deliverTo_ends hdrains hlen hfailed
    obtain ⟨clients', hloop⟩ := ih (clients.insert cid client') hnodup fun i hi => by
      have hne : i ≠ cid := fun heq => hcid (heq ▸ hi)
      rw [Finmap.lookup_insert_of_ne _ hne]
      exact hall i (List.mem_cons_of_mem _ hi)
    refine ⟨clients', ?_⟩
    simp only [distributeLoop, hc, hd]
    exact hloop

/-- **A call ends**, without a panic, if the mutexes are not poisoned, every client of the
topic is in the list, quiche runs out of datagrams for it and the socket does not fail. -/
theorem distribute_ends (hfree : ∀ m, poisoned m = false)
    (hwalks : ∀ sub, clientSub.lookup topic = some sub → sub.Walks order)
    (hall : ∀ sub, clientSub.lookup topic = some sub → ∀ i ∈ sub, .failed ∉ answers i ∧
      ∃ c n, clients.lookup i = some c ∧ q.Drains n (writeData q data c).conn ∧
        n ≤ (answers i).length) :
    ∃ clients', distribute q poisoned answers order topic data clientSub clients =
      some (clients', true) := by
  unfold distribute
  rw [hfree, hfree]
  cases hl : clientSub.lookup topic with
  | none => exact ⟨clients, rfl⟩
  | some sub =>
    have hwalk : sub.Walks order := hwalks sub hl
    refine distributeLoop_ends order clients hwalk.nodup fun i hi => hall sub hl i ?_
    rwa [← hwalk.mem_iff]

end CryptoMarket.Publisher
