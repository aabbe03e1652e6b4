import CryptoMarket.Publisher.Commands
import CryptoMarket.Publisher.Streams

/-!
# Publisher server: who gets a message

`distribute` holds both mutexes while it goes through the set of its topic, so the set and
the clients are those it found.

* `running_run`: `CLIENT_SUBSCRIBE` is poisoned only after a forwarder or `server_send`
  has died.
* `loop_run`: during the loop the clients that are still to come and those not in the set
  are untouched.
* `recipients`: a message is written to the established clients with a writable stream whose
  last command on the topic is a `sub`, and to no others.
-/

namespace CryptoMarket.Publisher

variable {Conn : Type} {q : Quiche Conn} {ipcs : List String} {rt : Bool} {s s' s₁ : Server Conn}
  {l : Label} {ls : List Label} {cid : ConnectionId} {c c' : Client Conn} {topic : String}
  {data : Bytes} {order rest : List ConnectionId} {log : List Event}

/-! ## The forwarders run -/

/-- What the forwarders rely on. -/
structure Running (s : Server Conn) : Prop where
  sent : s.spawned = true → s.pc .send = .sent
  spawned : ∀ topic data, (s.pc (.forwarder topic)).message = some data → s.spawned = true
  poisoned : s.poisoned .clientSubscribe = true →
    s.pc .send = .dead ∨ ∃ topic, s.pc (.forwarder topic) = .dead

/-- **A poisoned `CLIENT_SUBSCRIBE`** was poisoned before or by a thread that is now dead. -/
theorem poisoned_step (h : Step q ipcs rt s l s') (hp : s'.poisoned .clientSubscribe = true) :
    s.poisoned .clientSubscribe = true ∨ s'.pc .send = .dead ∨
      ∃ topic, s'.pc (.forwarder topic) = .dead := by
  rcases h.poisoned hp with hp | ⟨hh, hdead⟩
  · exact Or.inl hp
  · rcases h.survives hh with hlive | rfl | ⟨topic, ht⟩
    · exact absurd hdead hlive
    · exact Or.inr (Or.inl hdead)
    · exact Or.inr (Or.inr ⟨topic, ht ▸ hdead⟩)

/-- `server_send` is done once. -/
theorem Step.sent (h : Step q ipcs rt s l s') (hs : s.pc .send = .sent) :
    l ≠ .register ∧ s'.pc .send = .sent := by
  have hne : l.thread ≠ .send := by
    intro hl
    cases h with
    | sendLock hpc hf => rw [hs] at hpc; cases hpc
    | register hpc => rw [hs] at hpc; cases hpc
    | _ => cases hl
  constructor
  · rintro rfl
    exact hne rfl
  · rw [h.pc_of_ne (Ne.symm hne), hs]

theorem Step.spawned_mono (h : Step q ipcs rt s l s') (hok : Running s) (hs : s.spawned = true) :
    s'.spawned = true := by
  rw [h.spawned_eq (h.sent (hok.sent hs)).1, hs]

/-- A forwarder with a message had one before or was spawned. -/
theorem spawned_of_message (hok : Running s) (h : Step q ipcs rt s l s') {d : Bytes}
    (hm : (s'.pc (.forwarder topic)).message = some d) : s.spawned = true := by
  by_cases ht : l.thread = .forwarder topic
  · cases h with
    | message hpc hsp hin => exact hsp
    | disconnect hpc hsp => exact hsp
    | distSub hpc hf => cases ht; exact hok.spawned topic _ (by rw [hpc]; rfl)
    | distList hpc hf hl hw => cases ht; exact hok.spawned topic _ (by rw [hpc]; rfl)
    | deliver answers hpc hc hd => cases ht; exact hok.spawned topic _ (by rw [hpc]; rfl)
    | missing hpc hc => cases ht; exact hok.spawned topic _ (by rw [hpc]; rfl)
    | unlock hpc => cases ht; exact hok.spawned topic _ (by rw [hpc]; rfl)
    | _ => cases ht
  · rw [h.pc_of_ne (Ne.symm ht)] at hm
    exact hok.spawned topic d hm

theorem running_step (hok : Running s) (h : Step q ipcs rt s l s') : Running s' := by
  constructor
  · intro hsp
    by_cases hl : l = .register
    · subst hl
      cases h with
      | register hpc =>
        dsimp only at hsp ⊢
        split at hsp
        · rename_i hrt
          rw [if_pos hrt]
          exact Server.pc_goto s .send .sent
        · -- nothing was spawned before the registration
          have hsent : s.pc .send = .sent := hok.sent hsp
          rw [hpc] at hsent
          cases hsent
    · rw [h.spawned_eq hl] at hsp
      exact (h.sent (hok.sent hsp)).2
  · intro topic data hm
    exact h.spawned_mono hok (spawned_of_message hok h hm)
  · intro hp
    rcases poisoned_step h hp with hp | hp
    · rcases hok.poisoned hp with hd | ⟨topic, hd⟩
      · exact Or.inl (h.dead hd)
      · exact Or.inr ⟨topic, h.dead hd⟩
    · exact hp

theorem running_run (h : Runs q ipcs rt ls s) : Running s := by
  refine Run.inv (P := Running) ?_ (fun _ _ _ => running_step) h
  refine ⟨by simp [Server.init], fun topic data hm => ?_, by simp [Server.init]⟩
  simp [Server.init, Pc.message] at hm

/-! ## The loop of `distribute` -/

/-- The client has been tried with the data, once on each of its writable streams. -/
def Client.Attempted (q : Quiche Conn) (data : Bytes) (c c' : Client Conn) : Prop :=
  ∃ ws, c'.writes = c.writes ++ ws ∧ (∀ w ∈ ws, w.data = data ∧ w.fin = false) ∧
    ws.map Write.stream = if q.isEstablished c.conn then q.writable c.conn else []

theorem writes_writeData (data : Bytes) (c : Client Conn) : ∃ ws,
    (writeData q data c).writes = c.writes ++ ws ∧ (∀ w ∈ ws, w.data = data ∧ w.fin = false) ∧
      ws.map Write.stream = q.writable c.conn := by
  have hstreams : ∀ (streams : List StreamId) (c : Client Conn), ∃ ws,
      (streams.foldl (fun c stream => (c.streamSend q stream data false).2) c).writes =
        c.writes ++ ws ∧ (∀ w ∈ ws, w.data = data ∧ w.fin = false) ∧
          ws.map Write.stream = streams := by
    intro streams
    induction streams with
    | nil => intro c; exact ⟨[], by simp⟩
    | cons stream streams ih =>
      intro c
      obtain ⟨ws, hw, hd, hs⟩ := ih (c.streamSend q stream data false).2
      have hone : (c.streamSend q stream data false).2.writes =
          c.writes ++ [⟨stream, data, false, (q.streamSend c.conn stream data false).1⟩] := rfl
      refine ⟨⟨stream, data, false, (q.streamSend c.conn stream data false).1⟩ :: ws, ?_, ?_, ?_⟩
      · rw [List.foldl_cons, hw, hone, List.append_assoc, List.singleton_append]
      · intro w hm
        rcases List.mem_cons.1 hm with rfl | hm
        · exact ⟨rfl, rfl⟩
        · exact hd w hm
      · rw [List.map_cons, hs]
  exact hstreams (q.writable c.conn) c

theorem attempted_deliverTo {answers : List SocketAnswer} {ok : Bool}
    (h : deliverTo q data answers c = some (c', ok)) : c.Attempted q data c' := by
  unfold deliverTo at h
  split at h
  · rename_i hest
    obtain ⟨ws, hw, hd, hs⟩ := writes_writeData (q := q) data c
    refine ⟨ws, ?_, hd, ?_⟩
    · rw [(sendPackage_frame answers h).2, hw]
    · rw [if_pos hest, hs]
  · rename_i hest
    obtain ⟨rfl, -⟩ := Prod.mk.inj (Option.some.inj h)
    exact ⟨[], by simp, by simp, by rw [if_neg hest]; rfl⟩

/-- The loop of `distribute` over `order`, entered at `s₁`: the clients before the rest have
been tried, the others are untouched. -/
structure InLoop (q : Quiche Conn) (s₁ : Server Conn) (topic : String) (data : Bytes)
    (order rest : List ConnectionId) (s : Server Conn) : Prop where
  pc : s.pc (.forwarder topic) = .sending data rest
  suffix : rest <:+ order
  missing : ∀ i, s₁.clientList.lookup i = none → s.clientList.lookup i = none
  tried : ∀ i c, s₁.clientList.lookup i = some c → i ∈ order → i ∉ rest →
    ∃ c', s.clientList.lookup i = some c' ∧ c.Attempted q data c'
  untouched : ∀ i c, s₁.clientList.lookup i = some c → i ∉ order ∨ i ∈ rest →
    s.clientList.lookup i = some c

/-- A step that changes no client and leaves the forwarder where it is. -/
theorem InLoop.congr (hloop : InLoop q s₁ topic data order rest s)
    (hlist : s'.clientList = s.clientList)
    (hpc : s'.pc (.forwarder topic) = s.pc (.forwarder topic)) :
    InLoop q s₁ topic data order rest s' := by
  refine ⟨by rw [hpc, hloop.pc], hloop.suffix, ?_, ?_, ?_⟩
  · rw [hlist]; exact hloop.missing
  · rw [hlist]; exact hloop.tried
  · rw [hlist]; exact hloop.untouched

/-- The forwarder tries the next client. -/
theorem InLoop.next (hloop : InLoop q s₁ topic data order (cid :: rest) s) (hnodup : order.Nodup)
    (hc : s.clientList.lookup cid = some c) (htry : c.Attempted q data c') :
    InLoop q s₁ topic data order rest
      ((s.setClient cid c').goto (.forwarder topic) (.sending data rest)) := by
  have hin : cid ∈ order := hloop.suffix.subset List.mem_cons_self
  have hnot : cid ∉ rest := (List.nodup_cons.1 (hnodup.sublist hloop.suffix.sublist)).1
  have hother : ∀ i, i ≠ cid → ((s.setClient cid c').goto (.forwarder topic)
      (.sending data rest)).clientList.lookup i = s.clientList.lookup i :=
    fun i hi => Finmap.lookup_insert_of_ne _ hi
  refine ⟨Server.pc_goto .., (List.suffix_cons cid rest).trans hloop.suffix, ?_, ?_, ?_⟩
  · intro i hi
    have hi' := hloop.missing i hi
    have hne : i ≠ cid := by
      rintro rfl
      rw [hc] at hi'
      cases hi'
    rw [hother i hne, hi']
  · intro i d hi hio hir
    by_cases hne : i = cid
    · -- the client tried now was untouched
      subst hne
      have hd := hloop.untouched i d hi (Or.inr List.mem_cons_self)
      rw [hc] at hd
      obtain rfl := Option.some.inj hd
      exact ⟨c', Finmap.lookup_insert _, htry⟩
    · rw [hother i hne]
      refine hloop.tried i d hi hio fun hm => ?_
      exact (List.mem_cons.1 hm).elim hne hir
  · intro i d hi hir
    have hne : i ≠ cid := by
      rintro rfl
      exact hir.elim (fun h => h hin) hnot
    rw [hother i hne]
    exact hloop.untouched i d hi (hir.imp_right (List.mem_cons_of_mem _))

/-- **One step**: another thread changes no client; the forwarder tries the next one. -/
theorem InLoop.step (hloop : InLoop q s₁ topic data order rest s) (hnodup : order.Nodup)
    (hex : Excl Pc.Holds s.pc) (h : Step q ipcs rt s l s') (hl : l ≠ .unlock topic) :
    s'.pc (.forwarder topic) = .dead ∨ ∃ rest', InLoop q s₁ topic data order rest' s' := by
  by_cases ht : l.thread = .forwarder topic
  · cases h with
    | message hpc hsp hin => cases ht; rw [hloop.pc] at hpc; cases hpc
    | disconnect hpc hsp => cases ht; rw [hloop.pc] at hpc; cases hpc
    | distSub hpc hf => cases ht; rw [hloop.pc] at hpc; cases hpc
    | distList hpc hf hls hw => cases ht; rw [hloop.pc] at hpc; cases hpc
    | deliver answers hpc hc hd =>
      cases ht
      rw [hloop.pc] at hpc
      cases hpc
      split
      · exact Or.inr ⟨_, hloop.next hnodup hc (attempted_deliverTo hd)⟩
      · exact Or.inl (Server.pc_panic ..)
    | missing hpc hc => cases ht; exact Or.inl (Server.pc_panic ..)
    | unlock hpc => cases ht; exact absurd rfl hl
    | _ => cases ht
  · -- the forwarder holds the mutex of the list
    have hlist : s'.clientList = s.clientList := by
      refine h.clientList_eq fun hholds => ht ?_
      exact hex .clientList _ _ hholds (by rw [hloop.pc]; simp [Pc.Holds, Pc.held])
    exact Or.inr ⟨rest, hloop.congr hlist (h.pc_of_ne (Ne.symm ht))⟩

/-- **The whole loop**, among the steps of the other threads. -/
theorem loop_run {ms : List Label} {s₂ : Server Conn} (hs₁ : Runs q ipcs rt ls s₁)
    (hpc : s₁.pc (.forwarder topic) = .sending data order) (hnodup : order.Nodup)
    (hrun : Run (Step q ipcs rt) s₁ ms s₂) (hl : Label.unlock topic ∉ ms) :
    s₂.pc (.forwarder topic) = .dead ∨ ∃ rest, InLoop q s₁ topic data order rest s₂ := by
  refine Run.hist_inv (P := fun ms s => Label.unlock topic ∉ ms → s.pc (.forwarder topic) = .dead ∨
    ∃ rest, InLoop q s₁ topic data order rest s) ?_ ?_ hrun hl
  · intro _
    refine Or.inr ⟨order, hpc, List.suffix_rfl, fun i hi => hi, fun i c _ hi hn => absurd hi hn,
      fun i c hi _ => hi⟩
  · intro ms s l s' hr ih hst hl
    rw [List.mem_append, List.mem_singleton, not_or] at hl
    rcases ih hl.1 with hd | ⟨rest, hloop⟩
    · exact Or.inl (hst.dead hd)
    · exact hloop.step hnodup (excl_run (hs₁.append hr)) hst (Ne.symm hl.2)

/-! ## Who gets a message -/

/-- A call of `distribute` that ends at its first lock does so because nobody has subscribed. -/
theorem distSub_spec (h : LoggedRuns q ipcs rt ls s log) (hpc : s.pc (.forwarder topic) = .distSub data)
    (hrunning : ∀ t, s.pc (.forwarder t) ≠ .dead) (hst : Step q ipcs rt s (.distSub topic) s₁) :
    s₁.pc (.forwarder topic) = .distList data ∨
      s₁.pc (.forwarder topic) = .idle ∧ ∀ cid, ¬ LastIsSub cid topic log := by
  have hok := running_run h.of_logged
  have hsent : s.pc .send = .sent := hok.sent (hok.spawned topic data (by rw [hpc]; rfl))
  have hpoisoned : s.poisoned .clientSubscribe = false := by
    rw [← Bool.not_eq_true]
    intro hp
    rcases hok.poisoned hp with hd | ⟨t, hd⟩
    · rw [hsent] at hd; cases hd
    · exact hrunning t hd
  cases hst with
  | distSub hpc' hf =>
    rw [hpc] at hpc'
    cases hpc'
    rw [Server.pc_goto]
    split
    · exact Or.inl rfl
    · rename_i hn
      refine Or.inr ⟨rfl, ?_⟩
      -- a `sub` counts only after the registration of its topic
      rintro cid ⟨l₁, e, l₂, rfl, hreg, -⟩
      refine hn ⟨hpoisoned, ?_⟩
      exact ((recorded_run h).topics topic).2 (List.mem_append.2 (Or.inl hreg))

/-- The second lock: the loop goes over the set of the topic, in some order. -/
theorem distList_inv (hpc : s.pc (.forwarder topic) = .distList data)
    (h : Step q ipcs rt s (.distList topic) s₁) (halive : s₁.pc (.forwarder topic) ≠ .dead) :
    ∃ cids order, s.clientSubscribe.lookup topic = some cids ∧ cids.Walks order ∧
      s₁ = s.goto (.forwarder topic) (.sending data order) := by
  cases h with
  | @distList topic data' cids order hpc' hf hcids hwalks =>
    rw [hpc] at hpc'
    cases hpc'
    split at halive
    · exact absurd (Server.pc_panic ..) halive
    · rename_i hpo
      rw [if_neg hpo]
      exact ⟨cids, order, hcids, hwalks, rfl⟩

/-- **A call of `distribute` from its second lock on**: it tries the clients of the list that
are established, have a writable stream and whose last command is a `sub`. -/
theorem distList_spec {ms : List Label} {s₂ : Server Conn} (h : LoggedRuns q ipcs rt ls s log)
    (hpc : s.pc (.forwarder topic) = .distList data) (hst : Step q ipcs rt s (.distList topic) s₁)
    (hrun : Run (Step q ipcs rt) s₁ ms s₂) (hl : Label.unlock topic ∉ ms)
    (hend : s₂.pc (.forwarder topic) = .sending data []) :
    (∀ i, i ∉ s.clientList → i ∉ s₂.clientList) ∧
    ∀ i c, s.clientList.lookup i = some c → ∃ c' ws, s₂.clientList.lookup i = some c' ∧
      c'.writes = c.writes ++ ws ∧ (∀ w ∈ ws, w.data = data ∧ w.stream ∈ q.writable c.conn) ∧
      (ws ≠ [] ↔ q.isEstablished c.conn ∧ q.writable c.conn ≠ [] ∧ LastIsSub i topic log) := by
  have halive : s₁.pc (.forwarder topic) ≠ .dead := by
    intro hd
    have hdead := Run.inv (P := fun s : Server Conn => s.pc (.forwarder topic) = .dead) hd
      (fun _ _ _ hd hst => hst.dead hd) hrun
    rw [hend] at hdead
    cases hdead
  obtain ⟨cids, order, hcids, hwalks, rfl⟩ := distList_inv hpc hst halive
  obtain hd | ⟨rest, hloop⟩ := loop_run (h.of_logged.snoc hst) (Server.pc_goto ..) hwalks.nodup hrun hl
  · rw [hend] at hd
    cases hd
  have hrest : Pc.sending data [] = .sending data rest := hend.symm.trans hloop.pc
  cases hrest
  refine ⟨fun i hi => ?_, fun i c hc => ?_⟩
  · exact Finmap.lookup_eq_none.1 (hloop.missing i (Finmap.lookup_eq_none.2 hi))
  -- the set of the topic is that of the log
  have hmem := (recorded_run h).subs topic cids hcids i
  rw [and_iff_right (Finmap.mem_of_lookup_eq_some hc), ← hwalks.mem_iff] at hmem
  by_cases hi : i ∈ order
  · obtain ⟨c', hc', ws, hw, hd, hs⟩ := hloop.tried i c hc hi List.not_mem_nil
    have hlast : LastIsSub i topic log := hmem.1 hi
    refine ⟨c', ws, hc', hw, fun w hm => ⟨(hd w hm).1, ?_⟩, ?_⟩
    · have hstream : w.stream ∈ ws.map Write.stream := List.mem_map_of_mem hm
      rw [hs] at hstream
      split at hstream
      · exact hstream
      · simp at hstream
    · have hnil : ws ≠ [] ↔ ws.map Write.stream ≠ [] := List.map_eq_nil_iff.not.symm
      rw [hnil, hs]
      by_cases hest : q.isEstablished c.conn <;> simp [hest, hlast]
  · refine ⟨c, [], hloop.untouched i c hc (Or.inl hi), by simp, by simp, ?_⟩
    simp [← hmem, hi]

/-- Commands of others and the alive check leave a client as it is, if it is not closed. -/
theorem lookup_of_other (h : Step q ipcs rt s l s') (hl : l = .handle ∨ l = .retain)
    (hother : l = .handle → ∀ stream actions streams,
      s.pc .connection ≠ .handling cid stream actions streams) (hk : Keeps q cid s l) :
    s'.clientList.lookup cid = s.clientList.lookup cid := by
  rcases hl with rfl | rfl
  · cases h with
    | handle hpc hc hrun =>
      refine Finmap.lookup_insert_of_ne _ ?_
      rintro rfl
      exact hother rfl _ _ _ hpc
  · cases h with
    | retain hpc =>
      exact Option.ext fun c => lookup_retainClients.trans (and_iff_left_of_imp (hk rfl c))

/-- **The recipients of a message**, in every run. A call of `distribute` goes on to its second
lock, or nobody has subscribed, as long as the forwarders run. From the second lock to its
end it writes to a client exactly if the client is in the list there, established, with a
writable stream, and its last command on the topic since it was accepted is a `sub` from
after the registration. Other clients' commands, commands on other topics and the
collection of other clients change none of this. -/
theorem recipients (h : LoggedRuns q ipcs rt ls s log) (topic : String) :
    (∀ data s₁, s.pc (.forwarder topic) = .distSub data → (∀ t, s.pc (.forwarder t) ≠ .dead) →
      Step q ipcs rt s (.distSub topic) s₁ → s₁.pc (.forwarder topic) = .distList data ∨
        s₁.pc (.forwarder topic) = .idle ∧ ∀ cid, ¬ LastIsSub cid topic log) ∧
    (∀ data ms s₁ s₂, s.pc (.forwarder topic) = .distList data →
      Step q ipcs rt s (.distList topic) s₁ → Run (Step q ipcs rt) s₁ ms s₂ →
      .unlock topic ∉ ms → s₂.pc (.forwarder topic) = .sending data [] →
      (∀ cid, cid ∉ s.clientList → cid ∉ s₂.clientList) ∧
      ∀ cid c, s.clientList.lookup cid = some c → ∃ c' ws, s₂.clientList.lookup cid = some c' ∧
        c'.writes = c.writes ++ ws ∧ (∀ w ∈ ws, w.data = data ∧ w.stream ∈ q.writable c.conn) ∧
        (ws ≠ [] ↔ q.isEstablished c.conn ∧ q.writable c.conn ≠ [] ∧ LastIsSub cid topic log)) ∧
    (∀ cid log', (∀ e ∈ log', ¬ e.Commands cid topic ∧ e ≠ .accepted cid) →
      (LastIsSub cid topic (log ++ log') ↔ LastIsSub cid topic log)) ∧
    ∀ cid l s', Step q ipcs rt s l s' → l = .handle ∨ l = .retain →
      (l = .handle → ∀ stream actions streams,
        s.pc .connection ≠ .handling cid stream actions streams) → Keeps q cid s l →
      s'.clientList.lookup cid = s.clientList.lookup cid :=
  ⟨fun _ _ hpc hrunning hst => distSub_spec h hpc hrunning hst,
    fun _ _ _ _ hpc hst hrun hl hend => distList_spec h hpc hst hrun hl hend,
    fun _ _ hother => lastIsSub_append hother,
    fun _ _ _ hst hl hother hk => lookup_of_other hst hl hother hk⟩

/-- The client of the sample run gets the message, on its one writable stream. -/
theorem recipients_sample : ∃ (ls : List Label) (s : Server (List Bytes)) (log : List Event)
    (c c' : Client (List Bytes)) (ws : List Write),
    LoggedRuns (sampleQuiche List.length) ["btc"] true ls s log ∧
    s.clientList.lookup sampleCid = some c ∧ c'.writes = c.writes ++ ws ∧
    ws = [⟨0, [1, 2, 3], false, .ok 3⟩] ∧ LastIsSub sampleCid "btc" log := by
  obtain ⟨s₀, hrun₀, hat₀⟩ := at_subscribed List.length subscribes_btc
  obtain ⟨s, hrun, hat⟩ := at_distList List.length "sub@btc" hat₀ [1, 2, 3]
  obtain ⟨s₁, s₂, hlist, -, hloop, hat₂⟩ := at_sending List.length "sub@btc" hat
  obtain ⟨log, hlog⟩ := (hrun₀.append hrun).exists_log []
  obtain ⟨-, hcall, -⟩ := recipients hlog "btc"
  obtain ⟨-, hclients⟩ := hcall [1, 2, 3] _ s₁ s₂ hat.forwarder hlist (Run.single hloop) (by simp)
    hat₂.forwarder
  obtain ⟨c', ws, hc', hw, -, hiff⟩ := hclients sampleCid _ hat.client
  rw [hat₂.client] at hc'
  obtain rfl := Option.some.inj hc'
  have hws : ws = [⟨0, [1, 2, 3], false, .ok 3⟩] := hw.symm
  exact ⟨_, s, log, _, _, ws, hlog, hat.client, hw, hws, (hiff.1 (by simp [hws])).2.2⟩

end CryptoMarket.Publisher
