import CryptoMarket.Publisher.Tables

/-!
# Publisher server: what a step leaves alone

* `Step.pc_of_ne`: a step moves the thread of its label only.
* `Step.clientList_eq`: the client list changes only by a thread that holds its mutex.
* `Step.clientSubscribe_eq`: the subscriptions change in three places only.
* `Step.mem_clientSubscribe`: topics come from the arguments of `server_send` only.
* `Step.spawned_eq`: only `server_send` spawns the forwarders.
* `Step.poisoned`: a mutex is poisoned only by a thread that panics while it holds it.
* `Step.mem_clientList`: a step adds the client it accepts and removes those it collects.
-/

namespace CryptoMarket.Publisher

/-- The thread that a step moves. -/
def Label.thread : Label → Thread
  | .poll | .lockList | .wouldBlock | .recvFailed | .packet _ _ _ | .streamRecv _ | .lockSub | .handle
  | .sendPackage => .connection
  | .wake | .checkList | .checkSub | .retain => .aliveCheck
  | .sendLock | .register => .send
  | .message topic _ | .disconnect topic | .distSub topic | .distList topic | .deliver topic
  | .unlock topic => .forwarder topic

variable {Conn : Type} {q : Quiche Conn} {ipcs : List String} {rt : Bool} {s s' : Server Conn}
  {l : Label} {ls : List Label} {cid i : ConnectionId} {c : Client Conn} {t : Thread} {pkt : Bytes}
  {src : SocketAddr} {ev : PacketEvent} {answer : SocketAnswer}

@[simp] theorem Server.pc_goto (s : Server Conn) (t : Thread) (p : Pc) : (s.goto t p).pc t = p :=
  Function.update_self ..

@[simp] theorem Server.pc_panic (s : Server Conn) (t : Thread) : (s.panic t).pc t = .dead :=
  Function.update_self ..

/-! ## Packets -/

/-- A packet changes at most one client, and then `server_connection` goes on or panics. -/
theorem receive_cases {P : Server Conn → Prop} (hgoto : ∀ p, P (s.goto .connection p))
    (hpanic : P (s.panic .connection))
    (hset : ∀ cid c p, P ((s.setClient cid c).goto .connection p))
    (hsetPanic : ∀ cid c, P ((s.setClient cid c).panic .connection)) :
    P (s.receive q pkt src answer).2 := by
  have hprocess : ∀ cid c, P (s.process q cid c pkt src) := by
    intro cid c
    unfold Server.process
    split
    · exact hset ..
    · split
      · split
        · exact hsetPanic ..
        · exact hset ..
      · exact hset ..
  have hanswered : P (s.answered answer) := by
    cases answer with
    | sent => exact hgoto _
    | wouldBlock => exact hgoto _
    | failed => exact hpanic
  unfold Server.receive
  split
  · exact hgoto _
  · split
    · exact hgoto _
    · exact hanswered
    · exact hanswered
    · exact hprocess ..
    · split
      · exact hprocess ..
      · exact hpanic
    · exact hpanic

theorem clientList_process (cid : ConnectionId) (c : Client Conn) (pkt : Bytes) (src : SocketAddr) :
    ∃ c', (s.process q cid c pkt src).clientList = s.clientList.insert cid c' := by
  unfold Server.process
  split
  · exact ⟨_, rfl⟩
  · split
    · split <;> exact ⟨_, rfl⟩
    · exact ⟨_, rfl⟩

theorem mem_process : i ∈ (s.process q cid c pkt src).clientList ↔ i = cid ∨ i ∈ s.clientList := by
  obtain ⟨c', hc⟩ := clientList_process (q := q) (s := s) cid c pkt src
  rw [hc]
  exact Finmap.mem_insert

/-- A packet adds the client that it makes a connection for. -/
theorem mem_receive : i ∈ (s.receive q pkt src answer).2.clientList ↔
    i ∈ s.clientList ∨ ∃ token odcid, (s.receive q pkt src answer).1 = .accepted token odcid i := by
  have hans : i ∈ (s.answered answer).clientList ↔ i ∈ s.clientList := by cases answer <;> rfl
  unfold Server.receive
  split
  · simp [Server.goto]
  · split
    · simp [Server.goto]
    · simp [hans]
    · simp [hans]
    · rw [mem_process, or_comm]
      simp [eq_comm]
    · split
      · rename_i hc
        rw [mem_process]
        constructor
        · rintro (rfl | h)
          · exact Or.inl (Finmap.mem_of_lookup_eq_some hc)
          · exact Or.inl h
        · rintro (h | ⟨token, odcid, h⟩)
          · exact Or.inr h
          · cases h
      · simp [Server.panic, Server.goto]
    · simp [Server.panic, Server.goto]

/-! ## Steps -/

/-- What a step with a packet does. -/
theorem Step.packet_inv (h : Step q ipcs rt s (.packet pkt src ev) s') :
    ∃ answer, (s.receive q pkt src answer).1 = ev ∧ (s.receive q pkt src answer).2 = s' := by
  cases h with
  | packet answer hpc => exact ⟨answer, rfl, rfl⟩

/-- **A step moves its thread only.** -/
theorem Step.pc_of_ne (h : Step q ipcs rt s l s') (ht : t ≠ l.thread) : s'.pc t = s.pc t := by
  cases h with
  | lockList hpc hf => split <;> exact Function.update_of_ne ht ..
  | packet answer hpc =>
    exact receive_cases (P := fun s' => s'.pc t = s.pc t) (fun _ => Function.update_of_ne ht ..)
      (Function.update_of_ne ht ..) (fun _ _ _ => Function.update_of_ne ht ..)
      (fun _ _ => Function.update_of_ne ht ..)
  | lockSub hpc hf => split <;> exact Function.update_of_ne ht ..
  | sendPackage answers hpc hc hsend => split <;> exact Function.update_of_ne ht ..
  | sendLock hpc hf => split <;> exact Function.update_of_ne ht ..
  | register hpc => dsimp only; split <;> exact Function.update_of_ne ht ..
  | distList hpc hf hl hw => split <;> exact Function.update_of_ne ht ..
  | deliver answers hpc hc hd => split <;> exact Function.update_of_ne ht ..
  | _ => exact Function.update_of_ne ht ..

/-- A thread that moves is not dead. -/
theorem Step.alive (h : Step q ipcs rt s l s') : s.pc l.thread ≠ .dead := by
  cases h <;> simp [Label.thread, *]

theorem Step.dead (h : Step q ipcs rt s l s') (ht : s.pc t = .dead) : s'.pc t = .dead := by
  have hne : t ≠ l.thread := by
    rintro rfl
    exact h.alive ht
  rw [h.pc_of_ne hne, ht]

theorem Step.spawned_eq (h : Step q ipcs rt s l s') (hl : l ≠ .register) : s'.spawned = s.spawned := by
  cases h with
  | lockList hpc hf => split <;> rfl
  | packet answer hpc =>
    exact receive_cases (P := fun s' => s'.spawned = s.spawned) (fun _ => rfl) rfl (fun _ _ _ => rfl)
      (fun _ _ => rfl)
  | lockSub hpc hf => split <;> rfl
  | sendPackage answers hpc hc hsend => split <;> rfl
  | sendLock hpc hf => split <;> rfl
  | register hpc => exact absurd rfl hl
  | distList hpc hf hl hw => split <;> rfl
  | deliver answers hpc hc hd => split <;> rfl
  | _ => rfl

/-- **The client list** changes only by a thread that holds its mutex. -/
theorem Step.clientList_eq (h : Step q ipcs rt s l s') (hn : ¬ (s.pc l.thread).Holds .clientList) :
    s'.clientList = s.clientList := by
  cases h with
  | lockList hpc hf => split <;> rfl
  | packet answer hpc => exact absurd (by simp [Label.thread, hpc, Pc.Holds, Pc.held]) hn
  | streamEnd hpc hc hr => exact absurd (by simp [Label.thread, hpc, Pc.Holds, Pc.held]) hn
  | streamRead hpc hc hr => exact absurd (by simp [Label.thread, hpc, Pc.Holds, Pc.held]) hn
  | lockSub hpc hf => split <;> rfl
  | handle hpc hc hrun => exact absurd (by simp [Label.thread, hpc, Pc.Holds, Pc.held]) hn
  | sendPackage answers hpc hc hsend =>
    exact absurd (by simp [Label.thread, hpc, Pc.Holds, Pc.held]) hn
  | retain hpc => exact absurd (by simp [Label.thread, hpc, Pc.Holds, Pc.held]) hn
  | sendLock hpc hf => split <;> rfl
  | register hpc => dsimp only; split <;> rfl
  | distList hpc hf hl hw => split <;> rfl
  | deliver answers hpc hc hd => exact absurd (by simp [Label.thread, hpc, Pc.Holds, Pc.held]) hn
  | _ => rfl

/-- **The subscriptions** change in `handle_sub`, in the alive check and in `server_send`. -/
theorem Step.clientSubscribe_eq (h : Step q ipcs rt s l s') (h₁ : l ≠ .handle) (h₂ : l ≠ .retain)
    (h₃ : l ≠ .register) : s'.clientSubscribe = s.clientSubscribe := by
  cases h with
  | lockList hpc hf => split <;> rfl
  | packet answer hpc =>
    exact receive_cases (P := fun s' => s'.clientSubscribe = s.clientSubscribe) (fun _ => rfl) rfl
      (fun _ _ _ => rfl) (fun _ _ => rfl)
  | lockSub hpc hf => split <;> rfl
  | handle hpc hc hrun => exact absurd rfl h₁
  | sendPackage answers hpc hc hsend => split <;> rfl
  | retain hpc => exact absurd rfl h₂
  | sendLock hpc hf => split <;> rfl
  | register hpc => exact absurd rfl h₃
  | distList hpc hf hl hw => split <;> rfl
  | deliver answers hpc hc hd => split <;> rfl
  | _ => rfl

/-- Topics come from the arguments of `server_send` only. -/
theorem Step.mem_clientSubscribe (h : Step q ipcs rt s l s') {topic : String}
    (ht : topic ∈ s'.clientSubscribe) : topic ∈ ipcs ∨ topic ∈ s.clientSubscribe := by
  obtain ⟨cids, hl⟩ := Finmap.mem_iff.1 ht
  by_cases hhandle : l = .handle
  · subst hhandle
    cases h with
    | @handle cid stream actions streams client client' sub hpc hc hrun =>
      have hlookup : (runActions q stream cid (split ';' actions)
          (client, s.clientSubscribe)).2.lookup topic = some cids := by
        rw [hrun]
        exact hl
      obtain ⟨cids', hl', -⟩ := lookup_runActions _ hlookup
      exact Or.inr (Finmap.mem_of_lookup_eq_some hl')
  by_cases hretain : l = .retain
  · subst hretain
    cases h with
    | retain hpc =>
      obtain ⟨cids', hl', -⟩ := lookup_retainSubs hl
      exact Or.inr (Finmap.mem_of_lookup_eq_some hl')
  by_cases hregister : l = .register
  · subst hregister
    have hsub : s'.clientSubscribe = registerTopics ipcs s.clientSubscribe := by
      cases h with
      | register hpc => dsimp only; split <;> rfl
    rw [hsub, lookup_registerTopics_eq] at hl
    split at hl
    · rename_i hin
      exact Or.inl hin
    · exact Or.inr (Finmap.mem_of_lookup_eq_some hl)
  rw [h.clientSubscribe_eq hhandle hretain hregister] at ht
  exact Or.inr ht

theorem Server.poisoned_panic {m : Lock} : (s.panic t).poisoned m = true ↔
    s.poisoned m = true ∨ (s.pc t).Holds m := by
  simp [Server.panic, Pc.Holds]

/-- **A mutex is poisoned** by the thread that moves, which held it and is dead now. -/
theorem Step.poisoned (h : Step q ipcs rt s l s') {m : Lock} (hp : s'.poisoned m = true) :
    s.poisoned m = true ∨ (s.pc l.thread).Holds m ∧ s'.pc l.thread = .dead := by
  -- the server a thread panics in has the points and the mutexes of `s`
  have hpanic : ∀ {s₀ : Server Conn} {t : Thread}, s₀.poisoned = s.poisoned → s₀.pc = s.pc →
      (s₀.panic t).poisoned m = true →
      s.poisoned m = true ∨ (s.pc t).Holds m ∧ (s₀.panic t).pc t = .dead := by
    intro s₀ t hpo hpc hp
    rw [Server.poisoned_panic, hpo, hpc] at hp
    exact hp.imp_right fun hh => ⟨hh, Server.pc_panic ..⟩
  revert hp
  cases h with
  | lockList hpc hf =>
    split
    · exact hpanic rfl rfl
    · exact Or.inl
  | recvFailed hpc => exact hpanic rfl rfl
  | packet answer hpc =>
    exact receive_cases (P := fun s' => s'.poisoned m = true → s.poisoned m = true ∨
      (s.pc .connection).Holds m ∧ s'.pc .connection = .dead) (fun _ => Or.inl) (hpanic rfl rfl)
      (fun _ _ _ => Or.inl) (fun _ _ => hpanic rfl rfl)
  | lockSub hpc hf =>
    split
    · exact hpanic rfl rfl
    · exact Or.inl
  | sendPackage answers hpc hc hsend =>
    split
    · exact Or.inl
    · exact hpanic rfl rfl
  | sendLock hpc hf =>
    split
    · exact hpanic rfl rfl
    · exact Or.inl
  | register hpc =>
    dsimp only
    split
    · exact Or.inl
    · exact hpanic rfl rfl
  | distList hpc hf hl hw =>
    split
    · exact hpanic rfl rfl
    · exact Or.inl
  | deliver answers hpc hc hd =>
    split
    · exact Or.inl
    · exact hpanic rfl rfl
  | missing hpc hc => exact hpanic rfl rfl
  | _ => exact Or.inl

/-- **`server_connection` and `server_alive_check`** do not die while they hold
`CLIENT_SUBSCRIBE`. -/
theorem Step.survives (h : Step q ipcs rt s l s') (hh : (s.pc l.thread).Holds .clientSubscribe) :
    s'.pc l.thread ≠ .dead ∨ l = .register ∨ ∃ topic, l.thread = .forwarder topic := by
  cases h with
  | handle hpc hc hrun => exact Or.inl (by simp [Label.thread, Server.goto])
  | retain hpc => exact Or.inl (by simp [Label.thread, Server.goto])
  | register hpc => exact Or.inr (Or.inl rfl)
  | message | disconnect | distSub | distList | deliver | missing | unlock =>
    exact Or.inr (Or.inr ⟨_, rfl⟩)
  | _ => simp [Label.thread, Pc.Holds, Pc.held, *] at hh

/-- The step does not collect the client. -/
def Keeps (q : Quiche Conn) (cid : ConnectionId) (s : Server Conn) (l : Label) : Prop :=
  l = .retain → ∀ c, s.clientList.lookup cid = some c → q.isClosed c.conn = false

theorem mem_retainClients {clients : ClientList Conn} : i ∈ retainClients q clients ↔
    i ∈ clients ∧ ∀ c, clients.lookup i = some c → q.isClosed c.conn = false := by
  constructor
  · intro hi
    obtain ⟨c, hc⟩ := Finmap.mem_iff.1 hi
    obtain ⟨hl, hopen⟩ := lookup_retainClients.1 hc
    refine ⟨Finmap.mem_of_lookup_eq_some hl, fun c' hc' => ?_⟩
    rw [hl] at hc'
    rwa [← Option.some.inj hc']
  · rintro ⟨hi, hopen⟩
    obtain ⟨c, hc⟩ := Finmap.mem_iff.1 hi
    exact Finmap.mem_of_lookup_eq_some (lookup_retainClients.2 ⟨hc, hopen c hc⟩)

/-- **The clients after a step**: those before that it does not collect, and the one it
accepts. -/
theorem Step.mem_clientList (h : Step q ipcs rt s l s') : i ∈ s'.clientList ↔
    i ∈ s.clientList ∧ Keeps q i s l ∨
      ∃ pkt src token odcid, l = .packet pkt src (.accepted token odcid i) := by
  have hset : ∀ {cid : ConnectionId} {c c' : Client Conn}, s.clientList.lookup cid = some c →
      (i ∈ s.clientList.insert cid c' ↔ i ∈ s.clientList) := by
    intro cid c c' hc
    rw [Finmap.mem_insert]
    refine or_iff_right_of_imp ?_
    rintro rfl
    exact Finmap.mem_of_lookup_eq_some hc
  -- the other steps neither collect nor accept
  have hsame : l ≠ .retain → (∀ pkt src ev, l ≠ .packet pkt src ev) → (i ∈ s.clientList ↔
      i ∈ s.clientList ∧ Keeps q i s l ∨
        ∃ pkt src token odcid, l = .packet pkt src (.accepted token odcid i)) := by
    intro hl hp
    constructor
    · intro h
      exact Or.inl ⟨h, fun hr => absurd hr hl⟩
    · rintro (h | ⟨pkt, src, token, odcid, h⟩)
      · exact h.1
      · exact absurd h (hp _ _ _)
  cases h with
  | lockList hpc hf => split <;> exact hsame (by simp) (by simp)
  | packet answer hpc =>
    rw [mem_receive]
    simp [Keeps]
  | streamEnd hpc hc hr => exact (hset hc).trans (hsame (by simp) (by simp))
  | streamRead hpc hc hr => exact (hset hc).trans (hsame (by simp) (by simp))
  | lockSub hpc hf => split <;> exact hsame (by simp) (by simp)
  | handle hpc hc hrun => exact (hset hc).trans (hsame (by simp) (by simp))
  | sendPackage answers hpc hc hsend =>
    split <;> exact (hset hc).trans (hsame (by simp) (by simp))
  | retain hpc => simpa [Keeps] using mem_retainClients
  | sendLock hpc hf => split <;> exact hsame (by simp) (by simp)
  | register hpc => dsimp only; split <;> exact hsame (by simp) (by simp)
  | distList hpc hf hl hw => split <;> exact hsame (by simp) (by simp)
  | deliver answers hpc hc hd => split <;> exact (hset hc).trans (hsame (by simp) (by simp))
  | _ => exact hsame (by simp) (by simp)

/-- A step that neither collects nor accepts keeps the clients. -/
theorem Step.mem_clientList_of_other (h : Step q ipcs rt s l s') (hl : l ≠ .retain)
    (hacc : ∀ pkt src token odcid, l ≠ .packet pkt src (.accepted token odcid i)) :
    i ∈ s'.clientList ↔ i ∈ s.clientList := by
  rw [h.mem_clientList]
  constructor
  · rintro (hi | ⟨pkt, src, token, odcid, hp⟩)
    · exact hi.1
    · exact absurd hp (hacc pkt src token odcid)
  · intro hi
    exact Or.inl ⟨hi, fun hr => absurd hr hl⟩

end CryptoMarket.Publisher
