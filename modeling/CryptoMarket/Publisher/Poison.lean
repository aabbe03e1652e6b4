import CryptoMarket.Publisher.Frames

/-!
# Publisher server: the subscription mutex

`create_server` starts `server_send` on a thread of its own, outside of the runtime, where
`tokio::task::spawn` panics. The thread holds `CLIENT_SUBSCRIBE` at that point, and the
`lock().unwrap()` of `handle_sub` panics on a poisoned mutex.

* `noTopics_run`: without topics no thread panics while it holds `CLIENT_SUBSCRIBE`.
* `usable_iff`: with topics `server_send` does, so `CLIENT_SUBSCRIBE` stays usable exactly
  when there is none.
-/

namespace CryptoMarket.Publisher

variable {Conn : Type} {q : Quiche Conn} {ipcs : List String} {rt : Bool} {s s' : Server Conn}
  {l : Label} {ls : List Label} {t : Thread}

/-- `CLIENT_SUBSCRIBE` is usable in a state: no thread that holds it panics in the next
step, and neither its lock in `handle_sub` nor the loop there panics. -/
def Server.Usable (q : Quiche Conn) (ipcs : List String) (rt : Bool) (s : Server Conn) : Prop :=
  ∀ l s', Step q ipcs rt s l s' →
    (∀ t, (s.pc t).Holds .clientSubscribe → s'.pc t ≠ .dead) ∧
      (l = .lockSub ∨ l = .handle → s'.pc .connection ≠ .dead)

/-- A server without topics: no forwarder ever gets a message. -/
structure NoTopics (s : Server Conn) : Prop where
  topics : ∀ topic, topic ∉ s.clientSubscribe
  forwarders : ∀ topic, s.pc (.forwarder topic) = .idle ∨ s.pc (.forwarder topic) = .dead
  poisoned : s.poisoned .clientSubscribe = false

theorem NoTopics.forwarder_ne (hn : NoTopics s) {topic : String} {p : Pc}
    (hidle : p ≠ .idle) (hdead : p ≠ .dead) : s.pc (.forwarder topic) ≠ p := by
  intro hp
  rcases hn.forwarders topic with h | h
  · exact hidle (hp.symm.trans h)
  · exact hdead (hp.symm.trans h)

/-- **Without topics no thread panics** while it holds the mutex. -/
theorem NoTopics.survives (hn : NoTopics s) (h : Step q [] rt s l s')
    (hh : (s.pc l.thread).Holds .clientSubscribe) : s'.pc l.thread ≠ .dead := by
  rcases h.survives hh with hlive | rfl | ⟨topic, ht⟩
  · exact hlive
  · cases h with
    | register hpc => simp [Label.thread, Server.goto]
  · -- a forwarder that waits or is gone holds nothing
    rcases hn.forwarders topic with hp | hp
    · simp [ht, hp, Pc.Holds, Pc.held] at hh
    · simp [ht, hp, Pc.Holds, Pc.held] at hh

theorem noTopics_init : NoTopics (Server.init Conn) :=
  ⟨fun _ => Finmap.notMem_empty, fun _ => Or.inl rfl, rfl⟩

/-- **One step** of any thread of a server without topics. -/
theorem noTopics_step (hn : NoTopics s) (h : Step q [] rt s l s') : NoTopics s' := by
  refine ⟨fun topic ht => ?_, fun topic => ?_, ?_⟩
  · rcases h.mem_clientSubscribe ht with hin | hin
    · cases hin
    · exact hn.topics topic hin
  · by_cases ht : l.thread = .forwarder topic
    · cases h with
      | message hpc hs hin => exact absurd hin (hn.topics _)
      | disconnect hpc hs => cases ht; exact Or.inr (Server.pc_goto ..)
      | distSub hpc hf => exact absurd hpc (hn.forwarder_ne (by simp) (by simp))
      | distList hpc hf hl hw => exact absurd hpc (hn.forwarder_ne (by simp) (by simp))
      | deliver answers hpc hc hd => exact absurd hpc (hn.forwarder_ne (by simp) (by simp))
      | missing hpc hc => exact absurd hpc (hn.forwarder_ne (by simp) (by simp))
      | unlock hpc => exact absurd hpc (hn.forwarder_ne (by simp) (by simp))
      | _ => cases ht
    · rw [h.pc_of_ne (Ne.symm ht)]
      exact hn.forwarders topic
  · by_contra hp
    rw [Bool.not_eq_false] at hp
    rcases h.poisoned hp with hp | ⟨hh, hdead⟩
    · rw [hn.poisoned] at hp; cases hp
    · exact hn.survives h hh hdead

theorem noTopics_run (h : Runs q [] rt ls s) : NoTopics s :=
  Run.inv noTopics_init (fun _ _ _ hn hst => noTopics_step hn hst) h

theorem NoTopics.usable (hn : NoTopics s) : s.Usable q [] rt := by
  intro l s' h
  refine ⟨fun t hh => ?_, ?_⟩
  · by_cases ht : t = l.thread
    · subst ht
      exact hn.survives h hh
    · rw [h.pc_of_ne ht]
      intro hdead
      simp [hdead, Pc.Holds, Pc.held] at hh
  · rintro (rfl | rfl)
    · cases h with
      | lockSub hpc hf => rw [hn.poisoned, if_neg (by simp), Server.pc_goto]; simp
    · cases h with
      | handle hpc hc hrun => simp [Server.goto]

/-! ## The registration -/

/-- **With a topic and no runtime** the registration panics under the mutex. -/
theorem not_usable_registering (hipcs : ipcs ≠ []) (hpc : s.pc .send = .registering) :
    ¬ s.Usable q ipcs false := by
  intro hu
  have hstep : Step q ipcs false s .register _ := Step.register hpc
  have hsurvives := (hu _ _ hstep).1 .send (by simp [hpc, Pc.Holds, Pc.held])
  simp only [hipcs, Bool.false_eq_true, or_self, if_false] at hsurvives
  exact hsurvives (Server.pc_panic ..)

/-- **The subscription table** stays usable in every run of the threads that
`create_server` starts, if and only if there is no topic. -/
theorem usable_iff (q : Quiche Conn) (ipcs : List String) :
    (∀ ls s, Runs q ipcs false ls s → s.Usable q ipcs false) ↔ ipcs = [] := by
  constructor
  · intro hall
    by_contra hipcs
    -- `server_send` at its first topic
    have hrun : Runs q ipcs false [.sendLock] ((Server.init Conn).goto .send .registering) :=
      Run.single (Step.sendLock rfl (free_init _))
    exact not_usable_registering hipcs (Server.pc_goto ..) (hall _ _ hrun)
  · rintro rfl ls s hrun
    exact (noTopics_run hrun).usable

/-! ## A subscription -/

/-- After the registration of the topic `btc`. -/
def samplePoisoned : Server (List Bytes) :=
  { (Server.init (List Bytes)).goto .send .registering with
    clientSubscribe := registerTopics ["btc"] ∅ }.panic .send

/-- No other thread holds a mutex there. -/
theorem free_samplePoisoned {s : Server (List Bytes)} {p : Pc} (m : Lock) (hp : ¬ p.Holds m)
    (hpc : s.pc = (samplePoisoned.goto .connection p).pc) : s.Free m := by
  intro t ht
  rw [hpc] at ht
  cases t with
  | connection => exact hp ht
  | aliveCheck | send | forwarder => cases ht

/-- **The first subscription of a client** kills the connection thread. -/
theorem connection_dies : ∃ ls s s', Runs (sampleQuiche List.length) ["btc"] false ls s ∧
    Step (sampleQuiche List.length) ["btc"] false s .lockSub s' ∧ s'.pc .connection = .dead := by
  have hregister : Runs (sampleQuiche List.length) ["btc"] false [.sendLock, .register] samplePoisoned :=
    Run.cons (Step.sendLock rfl (free_init _)) (Run.single (Step.register rfl))
  have hread : ∃ s, Run (Step (sampleQuiche List.length) ["btc"] false) samplePoisoned
      [.poll, .lockList, .packet sampleToken sampleAddr (.accepted sampleToken sampleCid sampleCid),
        .streamRecv (some (utf8 "sub@btc"))] s ∧
      s.pc = (samplePoisoned.goto .connection (.lockSub sampleCid 0 "sub@btc" [])).pc ∧
      s.poisoned .clientSubscribe = true := by
    refine ⟨_, Run.cons (Step.poll rfl) <| Run.cons (Step.lockList rfl
        (free_samplePoisoned (p := .lockList) .clientList (by decide) rfl)) <|
      Run.cons (Step.packet .sent rfl) <| Run.single (Step.streamRead rfl rfl rfl), ?_, rfl⟩
    funext t
    cases t <;> rfl
  obtain ⟨s, hrun, hpc, hpoisoned⟩ := hread
  have hat : s.pc .connection = .lockSub sampleCid 0 "sub@btc" [] := by rw [hpc]; rfl
  have hlock : Step (sampleQuiche List.length) ["btc"] false s .lockSub _ :=
    Step.lockSub hat (free_samplePoisoned .clientSubscribe (by decide) hpc)
  rw [if_pos hpoisoned] at hlock
  exact ⟨_, s, _, hregister.append hrun, hlock, Server.pc_panic ..⟩

/-- **A server with a topic**: its subscription table does not stay usable. -/
theorem not_usable_btc : ¬ ∀ ls s, Runs (sampleQuiche List.length) ["btc"] false ls s →
    s.Usable (sampleQuiche List.length) ["btc"] false := by
  intro hall
  obtain ⟨ls, s, s', hrun, hlock, hdead⟩ := connection_dies
  exact (hall ls s hrun _ _ hlock).2 (Or.inl rfl) hdead

end CryptoMarket.Publisher
