import CryptoMarket.Publisher.Deadlock
import CryptoMarket.Publisher.Distribute
import CryptoMarket.Publisher.Frames

/-!
# Publisher server: when it stops

There are two ways in which the server stops as long as its process lives: two threads block
each other, or a thread panics under a mutex. (A panic of the connection thread ends the process,
when `create_server` has joined it.) A deadlock needs a forwarder, so a server thread that can
spawn tasks.

* `deadlock_or_step`: a thread that waits for a mutex can go on, or a thread that holds one
  can, unless two threads block each other. So there is no other way to get stuck.
* `deadlock_forever`: a deadlock never ends. Every thread takes at most one step more, none
  of them under a mutex, and the tables stay as they are.
* `poisoned_forever`: a poisoned mutex is never taken again, and its table stays as it is.
-/

namespace CryptoMarket.Publisher

variable {Conn : Type} {q : Quiche Conn} {ipcs : List String} {rt : Bool} {s s' : Server Conn}
  {l : Label} {ls ms : List Label} {t : Thread} {m : Lock}

/-! ## Steps and mutexes -/

/-- The mutexes under which the step reads or writes the tables. -/
def Label.under : Label → List Lock
  | .packet _ _ _ | .streamRecv _ | .sendPackage => [.clientList]
  | .handle | .retain | .deliver _ => [.clientList, .clientSubscribe]
  | .register => [.clientSubscribe]
  | _ => []

/-- A step of a thread that neither has a mutex nor takes one. -/
def Label.Outside : Label → Prop
  | .poll | .wake | .message _ _ | .disconnect _ => True
  | _ => False

/-- The table behind the mutex is the same. -/
def Server.SameTable (s s' : Server Conn) : Lock → Prop
  | .clientList => s'.clientList = s.clientList
  | .clientSubscribe => s'.clientSubscribe = s.clientSubscribe

theorem Server.SameTable.refl (s : Server Conn) (m : Lock) : s.SameTable s m := by
  cases m <;> rfl

theorem Server.SameTable.trans {s₁ s₂ s₃ : Server Conn} (h : s₁.SameTable s₂ m) (h' : s₂.SameTable s₃ m) :
    s₁.SameTable s₃ m := by
  cases m with
  | clientList => exact Eq.trans h' h
  | clientSubscribe => exact Eq.trans h' h

/-- A thread takes a step at a mutex only when it is free. -/
theorem Step.ready (h : Step q ipcs rt s l s') : Ready Pc.Holds Pc.Waits s.pc l.thread := by
  intro m hw
  cases h with
  | lockList hpc hf =>
    simp only [Label.thread, hpc, Pc.Waits, Pc.wanted, Option.some.injEq] at hw
    exact hw ▸ hf
  | lockSub hpc hf =>
    simp only [Label.thread, hpc, Pc.Waits, Pc.wanted, Option.some.injEq] at hw
    exact hw ▸ hf
  | checkList hpc hf =>
    simp only [Label.thread, hpc, Pc.Waits, Pc.wanted, Option.some.injEq] at hw
    exact hw ▸ hf
  | checkSub hpc hf =>
    simp only [Label.thread, hpc, Pc.Waits, Pc.wanted, Option.some.injEq] at hw
    exact hw ▸ hf
  | sendLock hpc hf =>
    simp only [Label.thread, hpc, Pc.Waits, Pc.wanted, Option.some.injEq] at hw
    exact hw ▸ hf
  | distSub hpc hf =>
    simp only [Label.thread, hpc, Pc.Waits, Pc.wanted, Option.some.injEq] at hw
    exact hw ▸ hf
  | distList hpc hf hl hwalk =>
    simp only [Label.thread, hpc, Pc.Waits, Pc.wanted, Option.some.injEq] at hw
    exact hw ▸ hf
  | _ => simp_all [Label.thread, Pc.Waits, Pc.wanted]

/-- **What is done under a mutex** is done by its holder. -/
theorem Step.holds (h : Step q ipcs rt s l s') (hm : m ∈ l.under) : (s.pc l.thread).Holds m := by
  cases h with
  | packet | streamEnd | streamRead | handle | sendPackage | retain | register | deliver | missing =>
    simpa [Label.under, Label.thread, Pc.Holds, Pc.held, *] using hm
  | _ => cases hm

/-- **A table changes** only by the holder of its mutex. -/
theorem Step.sameTable (h : Step q ipcs rt s l s') (hn : ¬ (s.pc l.thread).Holds m) :
    s.SameTable s' m := by
  cases m with
  | clientList => exact h.clientList_eq hn
  | clientSubscribe =>
    have hne : ∀ l', .clientSubscribe ∈ Label.under l' → l ≠ l' := by
      rintro l' hl' rfl
      exact hn (h.holds hl')
    exact h.clientSubscribe_eq (hne _ (by simp [Label.under])) (hne _ (by simp [Label.under]))
      (hne _ (by simp [Label.under]))

/-- A poisoned mutex stays poisoned. -/
theorem Step.poisoned_mono (h : Step q ipcs rt s l s') (hp : s.poisoned m = true) :
    s'.poisoned m = true := by
  have hpanic : ∀ {s₀ : Server Conn} {t : Thread}, s₀.poisoned = s.poisoned →
      (s₀.panic t).poisoned m = true := by
    intro s₀ t hpo
    rw [Server.poisoned_panic, hpo]
    exact Or.inl hp
  cases h with
  | lockList hpc hf =>
    split
    · exact hpanic rfl
    · exact hp
  | recvFailed hpc => exact hpanic rfl
  | packet answer hpc =>
    exact receive_cases (P := fun s' => s'.poisoned m = true) (fun _ => hp) (hpanic rfl)
      (fun _ _ _ => hp) (fun _ _ => hpanic rfl)
  | lockSub hpc hf =>
    split
    · exact hpanic rfl
    · exact hp
  | sendPackage answers hpc hc hsend =>
    split
    · exact hp
    · exact hpanic rfl
  | sendLock hpc hf =>
    split
    · exact hpanic rfl
    · exact hp
  | register hpc =>
    dsimp only
    split
    · exact hp
    · exact hpanic rfl
  | distList hpc hf hl hw =>
    split
    · exact hpanic rfl
    · exact hp
  | deliver answers hpc hc hd =>
    split
    · exact hp
    · exact hpanic rfl
  | missing hpc hc => exact hpanic rfl
  | _ => exact hp

/-- Where `server_connection` goes after a packet. -/
theorem pc_receive (pkt : Bytes) (src : SocketAddr) (answer : SocketAnswer) :
    (∃ cid streams, (s.receive q pkt src answer).2.pc .connection = .reading cid streams) ∨
      (s.receive q pkt src answer).2.pc .connection ∈ [.lockList, .polling, .dead] := by
  have hgoto : ∀ (s₀ : Server Conn) (p : Pc), p ∈ [Pc.lockList, .polling, .dead] →
      (s₀.goto .connection p).pc .connection ∈ [Pc.lockList, .polling, .dead] := by
    intro s₀ p hp
    rwa [Server.pc_goto]
  have hpanic : ∀ s₀ : Server Conn, (s₀.panic .connection).pc .connection ∈ [Pc.lockList, .polling, .dead] := by
    intro s₀
    rw [Server.pc_panic]
    simp
  have hprocess : ∀ cid c,
      (∃ cid' streams, (s.process q cid c pkt src).pc .connection = .reading cid' streams) ∨
        (s.process q cid c pkt src).pc .connection ∈ [.lockList, .polling, .dead] := by
    intro cid c
    unfold Server.process
    split
    · exact Or.inr (hgoto _ _ (by simp))
    · split
      · split
        · exact Or.inr (hpanic _)
        · exact Or.inl ⟨cid, _, Server.pc_goto ..⟩
      · exact Or.inl ⟨cid, _, Server.pc_goto ..⟩
  have hanswered : (s.answered answer).pc .connection ∈ [.lockList, .polling, .dead] := by
    cases answer with
    | sent => exact hgoto _ _ (by simp)
    | wouldBlock => exact hgoto _ _ (by simp)
    | failed => exact hpanic _
  unfold Server.receive
  split
  · exact Or.inr (hgoto _ _ (by simp))
  · split
    · exact Or.inr (hgoto _ _ (by simp))
    · exact Or.inr hanswered
    · exact Or.inr hanswered
    · exact hprocess ..
    · split
      · exact hprocess ..
      · exact Or.inr (hpanic _)
    · exact Or.inr (hpanic _)

/-- **A mutex is taken** only when it is not poisoned; at a poisoned one the thread panics or
goes back. -/
theorem Step.takes (h : Step q ipcs rt s l s') (hh : (s'.pc l.thread).Holds m) :
    (s.pc l.thread).Holds m ∨ s.poisoned m = false := by
  cases h with
  | lockList hpc hf =>
    split at hh
    · simp [Label.thread, Pc.Holds, Pc.held] at hh
    · simp_all [Label.thread, Pc.Holds, Pc.held]
  | @packet pkt src answer hpc =>
    rcases pc_receive (q := q) (s := s) pkt src answer with ⟨cid, streams, hr⟩ | hr
    · simp_all [Label.thread, Pc.Holds, Pc.held]
    · simp only [List.mem_cons, List.not_mem_nil, or_false] at hr
      rcases hr with hr | hr | hr <;> simp [Label.thread, hr, Pc.Holds, Pc.held] at hh
  | @streamRead cid stream streams client buf fin conn hpc hc hr =>
    cases hu : fromUtf8 buf <;> simp_all [Label.thread, Pc.Holds, Pc.held]
  | lockSub hpc hf =>
    split at hh
    · simp [Label.thread, Pc.Holds, Pc.held] at hh
    · cases m <;> simp_all [Label.thread, Pc.Holds, Pc.held]
  | sendPackage answers hpc hc hsend =>
    split at hh <;> simp [Label.thread, Pc.Holds, Pc.held] at hh
  | checkList hpc hf =>
    simp only [Label.thread, Server.pc_goto] at hh
    split at hh
    · simp [Pc.Holds, Pc.held] at hh
    · simp_all [Pc.Holds, Pc.held]
  | checkSub hpc hf =>
    simp only [Label.thread, Server.pc_goto] at hh
    split at hh
    · simp [Pc.Holds, Pc.held] at hh
    · cases m <;> simp_all [Label.thread, Pc.Holds, Pc.held]
  | sendLock hpc hf =>
    split at hh
    · simp [Label.thread, Pc.Holds, Pc.held] at hh
    · simp_all [Label.thread, Pc.Holds, Pc.held]
  | register hpc =>
    dsimp only at hh
    split at hh <;> simp [Label.thread, Server.goto, Server.panic, Pc.Holds, Pc.held] at hh
  | distSub hpc hf =>
    simp only [Label.thread, Server.pc_goto] at hh
    split at hh
    · simp_all [Pc.Holds, Pc.held]
    · simp [Pc.Holds, Pc.held] at hh
  | distList hpc hf hl hw =>
    split at hh
    · simp [Label.thread, Pc.Holds, Pc.held] at hh
    · cases m <;> simp_all [Label.thread, Pc.Holds, Pc.held]
  | deliver answers hpc hc hd =>
    split at hh
    · simp_all [Label.thread, Pc.Holds, Pc.held]
    · simp [Label.thread, Pc.Holds, Pc.held] at hh
  | _ => simp_all [Label.thread, Pc.Holds, Pc.held, Server.goto, Server.panic]

/-! ## Poisoned mutexes -/

/-- **A step leaves a poisoned mutex free**: its holder is dead and nobody takes it again. -/
theorem poisoned_free_step (hex : Excl Pc.Holds s.pc) (hfree : s.poisoned m = true → s.Free m)
    (h : Step q ipcs rt s l s') (hp : s'.poisoned m = true) : s'.Free m := by
  intro u hu
  by_cases hut : u = l.thread
  · subst hut
    rcases h.poisoned hp with hp' | ⟨-, hdead⟩
    · rcases h.takes hu with hh | hnot
      · exact hfree hp' _ hh
      · rw [hp'] at hnot
        cases hnot
    · simp [hdead, Pc.Holds, Pc.held] at hu
  · rw [h.pc_of_ne hut] at hu
    rcases h.poisoned hp with hp' | ⟨hh, -⟩
    · exact hfree hp' u hu
    · exact hut (hex m u l.thread hu hh)

theorem poisoned_free (h : Runs q ipcs rt ls s) : ∀ m, s.poisoned m = true → s.Free m := by
  refine Run.hist_inv (P := fun _ s => ∀ m, s.poisoned m = true → s.Free m) ?_ ?_ h
  · intro m hp
    cases hp
  · intro ls s l s' hr hfree hst m hp
    exact poisoned_free_step (excl_run hr) (hfree m) hst hp

/-- **A poisoned mutex is out of use for good**, as long as the process lives: no thread ever holds
it again, nothing is done under it any more, and its table stays as it is. -/
theorem poisoned_forever (h : Runs q ipcs rt ls s) (hp : s.poisoned m = true)
    (h' : Run (Step q ipcs rt) s ms s') :
    s'.poisoned m = true ∧ s'.Free m ∧ s.SameTable s' m ∧ ∀ l ∈ ms, m ∉ l.under := by
  have hkeep : s'.poisoned m = true ∧ s.SameTable s' m ∧ ∀ l ∈ ms, m ∉ l.under := by
    refine Run.hist_inv (P := fun ms s' => s'.poisoned m = true ∧ s.SameTable s' m ∧
      ∀ l ∈ ms, m ∉ l.under) ?_ ?_ h'
    · exact ⟨hp, .refl s m, by simp⟩
    · rintro ms s₁ l s₂ hr ⟨hp₁, hsame, hunder⟩ hst
      -- nobody holds the mutex, so the step is not one under it
      have hn : ¬ (s₁.pc l.thread).Holds m := poisoned_free (h.append hr) m hp₁ _
      refine ⟨hst.poisoned_mono hp₁, hsame.trans (hst.sameTable hn), fun l' hl' => ?_⟩
      rcases List.mem_append.1 hl' with hl' | hl'
      · exact hunder l' hl'
      · rw [List.mem_singleton.1 hl']
        exact fun hm => hn (hst.holds hm)
  exact ⟨hkeep.1, poisoned_free (h.append h') m hkeep.1, hkeep.2⟩

/-- `socket.recv_from` fails, and the alive check finds the mutex of the client list poisoned. -/
theorem poisoned_forever_recv : ∃ s s' : Server (List Bytes),
    Runs (sampleQuiche List.length) ["btc"] true [.poll, .lockList, .recvFailed] s ∧
    Run (Step (sampleQuiche List.length) ["btc"] true) s [.wake, .checkList] s' ∧
    s'.poisoned .clientList = true ∧ s'.Free .clientList ∧ s.SameTable s' .clientList ∧
      ∀ l ∈ [Label.wake, .checkList], .clientList ∉ l.under := by
  set s₁ := ((Server.init (List Bytes)).goto .connection .lockList)
  set s₂ := s₁.goto .connection .receiving
  set s₃ := s₂.panic .connection
  have hfree : ∀ {s : Server (List Bytes)} {p a : Pc}, ¬ p.Holds .clientList → ¬ a.Holds .clientList →
      s.pc = Function.update (Function.update (Server.init (List Bytes)).pc .connection p) .aliveCheck a →
      s.Free .clientList := by
    intro s p a hp ha hpc t ht
    rw [hpc] at ht
    cases t with
    | connection => exact hp ht
    | aliveCheck => exact ha ht
    | send | forwarder => cases ht
  have hrun : Runs (sampleQuiche List.length) ["btc"] true [.poll, .lockList, .recvFailed] s₃ := by
    refine Run.cons (Step.poll rfl) <| Run.cons (Step.lockList rfl ?_) <|
      Run.single (Step.recvFailed rfl)
    refine hfree (p := .lockList) (a := .sleeping) (by decide) (by decide) ?_
    funext t
    cases t <;> rfl
  have hrun' : Run (Step (sampleQuiche List.length) ["btc"] true) s₃ [.wake, .checkList]
      ((s₃.goto .aliveCheck .checkList).goto .aliveCheck .sleeping) := by
    refine Run.cons (Step.wake rfl) (Run.single (Step.checkList rfl ?_))
    refine hfree (p := .dead) (a := .checkList) (by decide) (by decide) ?_
    funext t
    cases t <;> rfl
  exact ⟨s₃, _, hrun, hrun', poisoned_forever hrun rfl hrun'⟩

/-! ## Deadlocks -/

/-- In a deadlock no mutex is free, and their holders wait. -/
theorem deadlock_blocks (hex : Excl Pc.Holds s.pc) (hd : Deadlock Pc.Holds Pc.Waits s.pc)
    (h : Step q ipcs rt s l s') : ∀ m, ¬ s.Free m ∧ ¬ (s.pc l.thread).Holds m := by
  obtain ⟨⟨t, ht, htw⟩, ⟨u, hu, huw⟩⟩ := nested_of_deadlock hd
  intro m
  cases m with
  | clientList =>
    refine ⟨fun hf => hf t ht, fun hh => ?_⟩
    obtain rfl := hex _ _ _ hh ht
    exact h.ready _ htw u hu
  | clientSubscribe =>
    refine ⟨fun hf => hf u hu, fun hh => ?_⟩
    obtain rfl := hex _ _ _ hh hu
    exact h.ready _ huw t ht

/-- A step while no mutex is free, of a thread that holds none. -/
theorem Step.outside (h : Step q ipcs rt s l s')
    (hb : ∀ m, ¬ s.Free m ∧ ¬ (s.pc l.thread).Holds m) : l.Outside := by
  have hnone : (s.pc l.thread).held = [] := List.eq_nil_iff_forall_not_mem.2 fun m => (hb m).2
  cases h with
  | poll | wake | message | disconnect => trivial
  | lockList hpc hf => exact absurd hf (hb _).1
  | lockSub hpc hf => exact absurd hf (hb _).1
  | checkList hpc hf => exact absurd hf (hb _).1
  | checkSub hpc hf => exact absurd hf (hb _).1
  | sendLock hpc hf => exact absurd hf (hb _).1
  | distSub hpc hf => exact absurd hf (hb _).1
  | distList hpc hf hl hw => exact absurd hf (hb _).1
  | _ => simp [Label.thread, Pc.held, *] at hnone

/-- After a step outside of the mutexes the thread waits for one, or has ended. -/
theorem Step.stops (h : Step q ipcs rt s l s') (hl : l.Outside) :
    (∃ m, (s'.pc l.thread).Waits m) ∨ s'.pc l.thread = .dead := by
  cases h with
  | poll => exact Or.inl ⟨.clientList, by simp [Label.thread, Pc.Waits, Pc.wanted]⟩
  | wake => exact Or.inl ⟨.clientList, by simp [Label.thread, Pc.Waits, Pc.wanted]⟩
  | message => exact Or.inl ⟨.clientSubscribe, by simp [Label.thread, Pc.Waits, Pc.wanted]⟩
  | disconnect => exact Or.inr (Server.pc_goto ..)
  | _ => exact hl.elim

/-- The server at `s`, with the steps `ms` later, when nothing but the way to a mutex is left. -/
structure Halted (s : Server Conn) (ms : List Label) (s' : Server Conn) : Prop where
  deadlock : Deadlock Pc.Holds Pc.Waits s'.pc
  tables : ∀ m, s.SameTable s' m
  outside : ∀ l ∈ ms, l.Outside
  /-- A thread that has taken a step waits for a mutex or has ended. -/
  stopped : ∀ l ∈ ms, (∃ m, (s'.pc l.thread).Waits m) ∨ s'.pc l.thread = .dead
  once : (ms.map Label.thread).Nodup

/-- **One step more** after a deadlock. -/
theorem halted_step (hex : Excl Pc.Holds s'.pc) (hok : Halted s ms s') {s'' : Server Conn}
    (h : Step q ipcs rt s' l s'') : Halted s (ms ++ [l]) s'' := by
  have hb := deadlock_blocks hex hok.deadlock h
  have hout := h.outside hb
  -- a thread that has stopped does not move
  have hnew : ∀ l' ∈ ms, l'.thread ≠ l.thread := by
    intro l' hl' heq
    have hstop := hok.stopped l' hl'
    rw [heq] at hstop
    rcases hstop with ⟨m, hw⟩ | hdead
    · exact (hb m).1 (h.ready m hw)
    · exact h.alive hdead
  refine ⟨hok.deadlock.stays h.ready fun v hv => h.pc_of_ne hv, fun m => ?_, fun l' hl' => ?_,
    fun l' hl' => ?_, ?_⟩
  · exact (hok.tables m).trans (h.sameTable (hb m).2)
  · rcases List.mem_append.1 hl' with hl' | hl'
    · exact hok.outside l' hl'
    · rw [List.mem_singleton.1 hl']
      exact hout
  · rcases List.mem_append.1 hl' with hl' | hl'
    · rw [h.pc_of_ne (hnew l' hl')]
      exact hok.stopped l' hl'
    · rw [List.mem_singleton.1 hl']
      exact h.stops hout
  · rw [List.map_append, List.nodup_append]
    refine ⟨hok.once, List.nodup_singleton _, fun t ht t' ht' => ?_⟩
    obtain ⟨l', hl', rfl⟩ := List.mem_map.1 ht
    rw [List.map_singleton, List.mem_singleton] at ht'
    rw [ht']
    exact hnew l' hl'

/-- **A deadlock never ends**: whatever happens afterwards, each thread takes at most one step
more, and none takes a mutex or changes a table. It takes a forwarder: a run with `rt = false`, as
the program starts the server, reaches none. -/
theorem deadlock_forever (h : Runs q ipcs rt ls s) (hd : Deadlock Pc.Holds Pc.Waits s.pc)
    (h' : Run (Step q ipcs rt) s ms s') : Halted s ms s' := by
  refine Run.hist_inv (P := Halted s) ?_ ?_ h'
  · exact ⟨hd, fun m => .refl s m, by simp, by simp, List.nodup_nil⟩
  · intro ms s₁ l s₂ hr hok hst
    exact halted_step (excl_run (h.append hr)) hok hst

/-- The connection thread in `handle_sub` and a forwarder block each other. -/
theorem at_blocked : ∃ ls s, Runs (sampleQuiche List.length) ["btc"] true ls s ∧
    s.At "btc" (.lockSub sampleCid 0 "sub@btc" []) .sleeping (.distList [1]) (some ⟨[], ∅, []⟩) ∅ := by
  obtain ⟨s, hrun, hat⟩ := at_lockSub List.length "btc" "sub@btc"
  have htopic : "btc" ∈ s.clientSubscribe := Finmap.mem_of_lookup_eq_some hat.topic
  have h₁ : Step (sampleQuiche List.length) ["btc"] true s (.message "btc" [1]) _ :=
    Step.message hat.forwarder hat.spawned htopic
  have hat₁ := hat.goto_forwarder (.distSub [1])
  have h₂ : Step (sampleQuiche List.length) ["btc"] true (s.goto (.forwarder "btc") (.distSub [1]))
      (.distSub "btc") _ := Step.distSub hat₁.forwarder (hat₁.free (by decide) (by decide) (by decide))
  rw [if_pos ⟨hat₁.poisoned _, htopic⟩] at h₂
  exact ⟨_, _, (hrun.snoc h₁).snoc h₂, hat₁.goto_forwarder (.distList [1])⟩

/-- The alive check wakes up after the deadlock. -/
theorem deadlock_forever_wake : ∃ ls s s', Runs (sampleQuiche List.length) ["btc"] true ls s ∧
    Deadlock Pc.Holds Pc.Waits s.pc ∧ Run (Step (sampleQuiche List.length) ["btc"] true) s [.wake] s' ∧
      Halted s [.wake] s' := by
  obtain ⟨ls, s, hrun, hat⟩ := at_blocked
  have hd : Deadlock Pc.Holds Pc.Waits s.pc := by
    refine ⟨.connection, .forwarder "btc", .clientList, .clientSubscribe, ?_⟩
    rw [hat.connection, hat.forwarder]
    decide
  have hwake : Run (Step (sampleQuiche List.length) ["btc"] true) s [.wake] _ :=
    Run.single (Step.wake hat.aliveCheck)
  exact ⟨ls, s, _, hrun, hd, hwake, deadlock_forever hrun hd hwake⟩

/-! ## No other way to get stuck -/

/-- The points of each thread. -/
def Pc.Of (p : Pc) (t : Thread) : Prop :=
  match p with
  | .polling | .lockList | .receiving | .reading _ _ | .lockSub _ _ _ _ | .handling _ _ _ _ =>
    t = .connection
  | .sleeping | .checkList | .checkSub | .collecting => t = .aliveCheck
  | .sendLock | .registering | .sent => t = .send
  | .idle | .distSub _ | .distList _ | .sending _ _ => ∃ topic, t = .forwarder topic
  | .dead => True

/-- Each thread is at one of its points, and a forwarder at the lock of `CLIENT_LIST` is that of
a topic. -/
structure Placed (s : Server Conn) : Prop where
  own : ∀ t, (s.pc t).Of t
  topic : ∀ topic data, s.pc (.forwarder topic) = .distList data → topic ∈ s.clientSubscribe

theorem own_step (h : Step q ipcs rt s l s') : (s'.pc l.thread).Of l.thread := by
  cases h with
  | lockList hpc hf => split <;> simp [Label.thread, Pc.Of]
  | @packet pkt src answer hpc =>
    rcases pc_receive (q := q) (s := s) pkt src answer with ⟨cid, streams, hr⟩ | hr
    · simp [Label.thread, hr, Pc.Of]
    · simp only [List.mem_cons, List.not_mem_nil, or_false] at hr
      rcases hr with hr | hr | hr <;> simp [Label.thread, hr, Pc.Of]
  | @streamRead cid stream streams client buf fin conn hpc hc hr =>
    cases hu : fromUtf8 buf <;> simp [Label.thread, Pc.Of]
  | lockSub hpc hf => split <;> simp [Label.thread, Pc.Of]
  | sendPackage answers hpc hc hsend => split <;> simp [Label.thread, Pc.Of]
  | checkList hpc hf => simp only [Label.thread, Server.pc_goto]; split <;> simp [Pc.Of]
  | checkSub hpc hf => simp only [Label.thread, Server.pc_goto]; split <;> simp [Pc.Of]
  | sendLock hpc hf => split <;> simp [Label.thread, Pc.Of]
  | register hpc => dsimp only; split <;> simp [Label.thread, Server.goto, Server.panic, Pc.Of]
  | distSub hpc hf => simp only [Label.thread, Server.pc_goto]; split <;> simp [Pc.Of]
  | distList hpc hf hl hw => split <;> simp [Label.thread, Pc.Of]
  | deliver answers hpc hc hd => split <;> simp [Label.thread, Pc.Of]
  | _ => simp [Label.thread, Server.goto, Server.panic, Pc.Of]

/-- A forwarder comes to the lock of `CLIENT_LIST` with one of the topics. -/
theorem topic_step {topic : String} {data : Bytes} (h : Step q ipcs rt s l s')
    (hl : l.thread = .forwarder topic) (hpc' : s'.pc (.forwarder topic) = .distList data) :
    topic ∈ s'.clientSubscribe := by
  cases h with
  | @distSub topic' data' hpc hf =>
    cases hl
    rw [Server.pc_goto] at hpc'
    split at hpc'
    · rename_i hok
      exact hok.2
    · cases hpc'
  | message hpc hs ht => cases hl; simp at hpc'
  | disconnect hpc hs => cases hl; simp at hpc'
  | distList hpc hf hlk hw => cases hl; split at hpc' <;> simp at hpc'
  | deliver answers hpc hc hd => cases hl; split at hpc' <;> simp at hpc'
  | missing hpc hc => cases hl; simp at hpc'
  | unlock hpc => cases hl; simp at hpc'
  | _ => cases hl

theorem placed_step (hex : Excl Pc.Holds s.pc) (hok : Placed s) (h : Step q ipcs rt s l s') :
    Placed s' := by
  refine ⟨fun t => ?_, fun topic data hpc => ?_⟩
  · by_cases ht : t = l.thread
    · rw [ht]
      exact own_step h
    · rw [h.pc_of_ne ht]
      exact hok.own t
  · by_cases ht : l.thread = .forwarder topic
    · exact topic_step h ht hpc
    · -- the forwarder holds the subscriptions, so they stay as they are
      rw [h.pc_of_ne (Ne.symm ht)] at hpc
      have hholds : (s.pc (.forwarder topic)).Holds .clientSubscribe := by simp [hpc, Pc.Holds, Pc.held]
      have hsame : s'.clientSubscribe = s.clientSubscribe :=
        h.sameTable (m := .clientSubscribe) fun hh => ht (hex _ _ _ hh hholds)
      rw [hsame]
      exact hok.topic topic data hpc

theorem placed_run (h : Runs q ipcs rt ls s) : Placed s := by
  refine Run.hist_inv (P := fun _ s => Placed s) ?_ ?_ h
  · refine ⟨fun t => ?_, fun topic data hpc => by cases hpc⟩
    cases t <;> simp [Server.init, Pc.Of]
  · intro ls s l s' hr hok hst
    exact placed_step (excl_run hr) hok hst

/-- A client gets its packets with some answers of the socket. -/
theorem sendPackage_drains {c : Client Conn} (hdrains : ∃ n, q.Drains n c.conn) :
    ∃ answers c', sendPackage q answers c = some (c', true) := by
  obtain ⟨n, hn⟩ := hdrains
  obtain ⟨c', hc'⟩ := sendPackage_ends n (List.replicate n .sent) hn (by simp)
    fun h => by cases List.eq_of_mem_replicate h
  exact ⟨_, c', hc'⟩

/-- **A thread at a mutex or with one** can go on as soon as the mutex it waits for is free. -/
theorem step_of_ready (hdrains : ∀ conn, ∃ n, q.Drains n conn) (href : RefOK s) (hok : Placed s)
    (hready : Ready Pc.Holds Pc.Waits s.pc t)
    (ht : (∃ m, (s.pc t).Holds m) ∨ ∃ m, (s.pc t).Waits m) :
    ∃ l s', l.thread = t ∧ Step q ipcs rt s l s' := by
  have hown := hok.own t
  -- the client that the thread works on is in the list
  have hclient : ∀ cid ∈ (s.pc t).refs, ∃ c, s.clientList.lookup cid = some c :=
    fun cid hcid => Finmap.mem_iff.1 (href.refs t cid hcid)
  cases hpc : s.pc t with
  | polling | sleeping | sent | idle | dead => simp [hpc, Pc.Holds, Pc.held, Pc.Waits, Pc.wanted] at ht
  | lockList =>
    obtain rfl : t = .connection := by simpa [hpc, Pc.Of] using hown
    exact ⟨.lockList, _, rfl, .lockList hpc (hready _ (by simp [hpc, Pc.Waits, Pc.wanted]))⟩
  | receiving =>
    obtain rfl : t = .connection := by simpa [hpc, Pc.Of] using hown
    exact ⟨.wouldBlock, _, rfl, .wouldBlock hpc⟩
  | reading cid streams =>
    obtain rfl : t = .connection := by simpa [hpc, Pc.Of] using hown
    obtain ⟨c, hc⟩ := hclient cid (by simp [hpc, Pc.refs])
    cases streams with
    | nil =>
      obtain ⟨answers, c', hsend⟩ := sendPackage_drains (hdrains c.conn)
      exact ⟨.sendPackage, _, rfl, .sendPackage answers hpc hc hsend⟩
    | cons stream streams =>
      obtain ⟨⟨result, conn⟩, hr⟩ : ∃ r, q.streamRecv c.conn stream = r := ⟨_, rfl⟩
      cases result with
      | error error => exact ⟨.streamRecv none, _, rfl, .streamEnd hpc hc hr⟩
      | ok read => exact ⟨.streamRecv (some read.1), _, rfl, .streamRead hpc hc hr⟩
  | lockSub cid stream actions streams =>
    obtain rfl : t = .connection := by simpa [hpc, Pc.Of] using hown
    exact ⟨.lockSub, _, rfl, .lockSub hpc (hready _ (by simp [hpc, Pc.Waits, Pc.wanted]))⟩
  | handling cid stream actions streams =>
    obtain rfl : t = .connection := by simpa [hpc, Pc.Of] using hown
    obtain ⟨c, hc⟩ := hclient cid (by simp [hpc, Pc.refs])
    exact ⟨.handle, _, rfl, .handle hpc hc rfl⟩
  | checkList =>
    obtain rfl : t = .aliveCheck := by simpa [hpc, Pc.Of] using hown
    exact ⟨.checkList, _, rfl, .checkList hpc (hready _ (by simp [hpc, Pc.Waits, Pc.wanted]))⟩
  | checkSub =>
    obtain rfl : t = .aliveCheck := by simpa [hpc, Pc.Of] using hown
    exact ⟨.checkSub, _, rfl, .checkSub hpc (hready _ (by simp [hpc, Pc.Waits, Pc.wanted]))⟩
  | collecting =>
    obtain rfl : t = .aliveCheck := by simpa [hpc, Pc.Of] using hown
    exact ⟨.retain, _, rfl, .retain hpc⟩
  | sendLock =>
    obtain rfl : t = .send := by simpa [hpc, Pc.Of] using hown
    exact ⟨.sendLock, _, rfl, .sendLock hpc (hready _ (by simp [hpc, Pc.Waits, Pc.wanted]))⟩
  | registering =>
    obtain rfl : t = .send := by simpa [hpc, Pc.Of] using hown
    exact ⟨.register, _, rfl, .register hpc⟩
  | distSub data =>
    obtain ⟨topic, rfl⟩ : ∃ topic, t = .forwarder topic := by simpa [hpc, Pc.Of] using hown
    exact ⟨.distSub topic, _, rfl, .distSub hpc (hready _ (by simp [hpc, Pc.Waits, Pc.wanted]))⟩
  | distList data =>
    obtain ⟨topic, rfl⟩ : ∃ topic, t = .forwarder topic := by simpa [hpc, Pc.Of] using hown
    obtain ⟨cids, hcids⟩ := Finmap.mem_iff.1 (hok.topic topic data hpc)
    obtain ⟨order, horder⟩ := Quot.exists_rep cids.val
    have hwalk : cids.Walks order := horder
    exact ⟨.distList topic, _, rfl,
      .distList hpc (hready _ (by simp [hpc, Pc.Waits, Pc.wanted])) hcids hwalk⟩
  | sending data rest =>
    obtain ⟨topic, rfl⟩ : ∃ topic, t = .forwarder topic := by simpa [hpc, Pc.Of] using hown
    cases rest with
    | nil => exact ⟨.unlock topic, _, rfl, .unlock hpc⟩
    | cons cid rest =>
      obtain ⟨c, hc⟩ := hclient cid (by simp [hpc, Pc.refs])
      by_cases hest : q.isEstablished c.conn
      · obtain ⟨answers, c', hsend⟩ := sendPackage_drains (hdrains (writeData q data c).conn)
        have hd : deliverTo q data answers c = some (c', true) := by rw [deliverTo, if_pos hest, hsend]
        exact ⟨.deliver topic, _, rfl, .deliver answers hpc hc hd⟩
      · have hd : deliverTo q data [] c = some (c, true) := by rw [deliverTo, if_neg hest]
        exact ⟨.deliver topic, _, rfl, .deliver [] hpc hc hd⟩

/-- **Nothing but a deadlock** stops a thread at a mutex: it can go on, or a thread that holds a
mutex can. Where no forwarder runs there is no deadlock either. -/
theorem deadlock_or_step (hdrains : ∀ conn, ∃ n, q.Drains n conn) (h : Runs q ipcs rt ls s)
    (hw : (s.pc t).Waits m) :
    Deadlock Pc.Holds Pc.Waits s.pc ∨
      ∃ l s', Step q ipcs rt s l s' ∧ (l.thread = t ∨ ∃ m, (s.pc l.thread).Holds m) := by
  have htwo : ∀ m₁ m₂ m₃ : Lock, m₁ ≠ m₂ → m₂ ≠ m₃ → m₃ = m₁ := by
    intro m₁ m₂ m₃
    cases m₁ <;> cases m₂ <;> cases m₃ <;> simp
  rcases deadlock_or_ready (fun _ _ => Pc.not_waits) htwo s.pc t with hd | ⟨u, hready, hu⟩
  · exact Or.inl hd
  · have hat : (∃ m, (s.pc u).Holds m) ∨ ∃ m, (s.pc u).Waits m := by
      rcases hu with rfl | hholds
      · exact Or.inr ⟨m, hw⟩
      · exact Or.inl hholds
    obtain ⟨l, s', rfl, hst⟩ := step_of_ready hdrains (refOK_run h) (placed_run h) hready hat
    exact Or.inr ⟨l, s', hst, hu⟩

/-- The connection thread before the commands of a client. -/
theorem deadlock_or_step_lockSub : ∃ s, Runs (sampleQuiche List.length) ["btc"] true sampleSteps s ∧
    (Deadlock Pc.Holds Pc.Waits s.pc ∨ ∃ l s', Step (sampleQuiche List.length) ["btc"] true s l s' ∧
      (l.thread = .connection ∨ ∃ m, (s.pc l.thread).Holds m)) := by
  obtain ⟨s, hrun, hat⟩ := at_lockSub List.length "btc" "sub@btc"
  have hw : (s.pc .connection).Waits .clientSubscribe := by rw [hat.connection]; rfl
  exact ⟨s, hrun, deadlock_or_step (fun conn => ⟨0, .done, conn, rfl⟩) hrun hw⟩

end CryptoMarket.Publisher
