import CryptoMarket.Publisher.Frames

/-!
# Publisher server: lock order

The connection thread and the alive check take `CLIENT_LIST` and then `CLIENT_SUBSCRIBE`;
`distribute` takes them the other way round.

* `no_deadlock_of_quiet`: a run in which no forwarder takes a message reaches no deadlock.
* `deadlock_message`: wherever a forwarder runs, its first message and the alive check can
  block each other, whatever the transport does.
* `no_deadlock_iff`: so no run reaches a deadlock if and only if no forwarder ever runs.
* `deadlock_subscribe`: a subscription and a published message block each other as well.
-/

namespace CryptoMarket.Publisher

variable {Conn : Type} {q : Quiche Conn} {ipcs : List String} {rt : Bool} {s s' : Server Conn}
  {l : Label} {ls : List Label} {t : Thread} {p : Pc} {m : Lock}

/-- A thread that holds `m` waits for `m'`. -/
def Server.Nested (s : Server Conn) (m m' : Lock) : Prop :=
  CryptoMarket.Nested Pc.Holds Pc.Waits s.pc m m'

theorem Pc.not_waits (h : p.Holds m) : ¬ p.Waits m := by
  cases p <;> cases m <;> simp_all [Pc.Holds, Pc.held, Pc.Waits, Pc.wanted]

/-- A deadlock is two nested waits of opposite orders. -/
theorem nested_of_deadlock (h : Deadlock Pc.Holds Pc.Waits s.pc) :
    s.Nested .clientList .clientSubscribe ∧ s.Nested .clientSubscribe .clientList := by
  obtain ⟨m, m', hn, hn'⟩ := deadlock_iff.1 h
  -- no thread waits for the mutex it holds
  have hne : ∀ m, ¬ s.Nested m m := by
    rintro m ⟨t, hm, hw⟩
    exact Pc.not_waits hm hw
  cases m with
  | clientList =>
    cases m' with
    | clientList => exact absurd hn (hne _)
    | clientSubscribe => exact ⟨hn, hn'⟩
  | clientSubscribe =>
    cases m' with
    | clientList => exact ⟨hn', hn⟩
    | clientSubscribe => exact absurd hn (hne _)

/-! ## Without a message -/

/-- Only `distribute` waits for `CLIENT_LIST` with `CLIENT_SUBSCRIBE` in its hands. -/
theorem Pc.message_of_nested (hh : p.Holds .clientSubscribe) (hw : p.Waits .clientList) :
    ∃ data, p.message = some data := by
  cases p with
  | distList data => exact ⟨data, rfl⟩
  | _ => simp_all [Pc.Holds, Pc.held, Pc.Waits, Pc.wanted]

/-- As long as no message is taken, no thread distributes one. -/
theorem no_message_run (h : Runs q ipcs rt ls s) (hq : ∀ topic data, Label.message topic data ∉ ls) :
    ∀ t, (s.pc t).message = none := by
  refine Run.hist_inv (P := fun ls s => (∀ topic data, Label.message topic data ∉ ls) →
    ∀ t, (s.pc t).message = none) ?_ ?_ h hq
  · intro _ t
    cases t <;> rfl
  · intro ls s l s' _ ih hst hq t
    obtain ⟨u, p, hm⟩ := hst.moves
    have hbefore := ih (fun topic data hl => hq topic data (List.mem_append_left _ hl)) t
    refine Option.eq_none_iff_forall_ne_some.2 fun data hd => ?_
    rcases hm.message_of hd with hd | ⟨topic, rfl⟩
    · rw [hbefore] at hd
      cases hd
    · exact hq topic data (by simp)

/-- **No deadlock without a message**: one of the two nested waits is a forwarder's. -/
theorem no_deadlock_of_quiet (h : Runs q ipcs rt ls s)
    (hq : ∀ topic data, Label.message topic data ∉ ls) : ¬ Deadlock Pc.Holds Pc.Waits s.pc := by
  intro hd
  obtain ⟨-, t, hh, hw⟩ := nested_of_deadlock hd
  obtain ⟨data, hdata⟩ := Pc.message_of_nested hh hw
  rw [no_message_run h hq t] at hdata
  cases hdata

/-- Only registered topics have subscribers, and forwarders run only where they can be spawned. -/
theorem registered_run (h : Runs q ipcs rt ls s) :
    (∀ topic ∈ s.clientSubscribe, topic ∈ ipcs) ∧ (s.spawned = true → rt = true ∨ ipcs = []) := by
  refine Run.inv (P := fun s => (∀ topic ∈ s.clientSubscribe, topic ∈ ipcs) ∧
    (s.spawned = true → rt = true ∨ ipcs = [])) ?_ ?_ h
  · exact ⟨fun topic ht => absurd ht Finmap.notMem_empty, fun hs => by cases hs⟩
  · rintro s l s' ⟨htopics, hspawned⟩ hst
    refine ⟨fun topic ht => (hst.mem_clientSubscribe ht).elim id (htopics topic), fun hs => ?_⟩
    by_cases hl : l = .register
    · subst hl
      cases hst with
      | register hpc =>
        by_cases hr : rt = true ∨ ipcs = []
        · exact hr
        · -- the panic leaves the flag as it was
          rw [if_neg hr] at hs
          exact hspawned hs
    · rw [hst.spawned_eq hl] at hs
      exact hspawned hs

/-- Where no forwarder runs, no message is taken. -/
theorem quiet_run (hr : rt = false ∨ ipcs = []) (h : Runs q ipcs rt ls s) (topic : String) (data : Bytes) :
    Label.message topic data ∉ ls := by
  refine Run.hist_inv (P := fun ls _ => Label.message topic data ∉ ls) (by simp) ?_ h
  intro ls s l s' hrun hq hst hl
  rcases List.mem_append.1 hl with hl | hl
  · exact hq hl
  · obtain rfl := List.mem_singleton.1 hl
    cases hst with
    | message hpc hs ht =>
      have hin := (registered_run hrun).1 topic ht
      have hrt := (registered_run hrun).2 hs
      rcases hr with rfl | rfl
      · simp_all
      · simp at hin

/-! ## With a message -/

theorem Server.Free.goto (h : s.Free m) (hp : ¬ p.Holds m) : (s.goto t p).Free m := by
  intro u hu
  by_cases hut : u = t
  · rw [hut, Server.pc_goto] at hu
    exact hp hu
  · exact h u (by simpa [Server.goto, Function.update_of_ne hut] using hu)

/-- **The alive check and a message block each other**, whatever the transport does: the
forwarder holds `CLIENT_SUBSCRIBE` at the lock of `CLIENT_LIST`, the alive check holds
`CLIENT_LIST` at the lock of `CLIENT_SUBSCRIBE`. -/
theorem deadlock_message (q : Quiche Conn) {topic : String} (ht : topic ∈ ipcs) (data : Bytes) :
    ∃ s, Runs q ipcs true [.sendLock, .register, .message topic data, .distSub topic, .wake, .checkList] s ∧
      Deadlock Pc.Holds Pc.Waits s.pc := by
  set s₁ := (Server.init Conn).goto .send .registering
  have h₁ : Step q ipcs true (Server.init Conn) .sendLock s₁ := Step.sendLock rfl (free_init _)
  set s₂ : Server Conn :=
    { s₁.goto .send .sent with clientSubscribe := registerTopics ipcs ∅, spawned := true }
  have h₂ : Step q ipcs true s₁ .register s₂ := Step.register rfl
  have hin : topic ∈ s₂.clientSubscribe := by
    have hl : s₂.clientSubscribe.lookup topic = some ∅ :=
      (lookup_registerTopics_eq ipcs ∅).trans (if_pos ht)
    exact Finmap.mem_of_lookup_eq_some hl
  have hfree : ∀ m, s₂.Free m := by
    intro m t
    cases t <;> simp [s₂, s₁, Server.init, Server.goto, Pc.Holds, Pc.held]
  -- the forwarder takes its message to the second lock of `distribute`
  set s₃ := s₂.goto (.forwarder topic) (.distSub data)
  have h₃ : Step q ipcs true s₂ (.message topic data) s₃ := Step.message rfl rfl hin
  set s₄ := s₃.goto (.forwarder topic) (.distList data)
  have h₄ : Step q ipcs true s₃ (.distSub topic) s₄ := by
    have h : Step q ipcs true s₃ (.distSub topic) _ :=
      Step.distSub (Server.pc_goto ..) ((hfree _).goto (by simp [Pc.Holds, Pc.held]))
    rwa [if_pos ⟨rfl, hin⟩] at h
  -- and the alive check goes to its own second lock
  set s₅ := s₄.goto .aliveCheck .checkList
  have h₅ : Step q ipcs true s₄ .wake s₅ := Step.wake rfl
  set s₆ := s₅.goto .aliveCheck .checkSub
  have h₆ : Step q ipcs true s₅ .checkList s₆ := by
    have hlist : s₄.Free .clientList :=
      ((hfree _).goto (by simp [Pc.Holds, Pc.held])).goto (by simp [Pc.Holds, Pc.held])
    exact Step.checkList (Server.pc_goto ..) (hlist.goto (by simp [Pc.Holds, Pc.held]))
  have hcheck : s₆.pc .aliveCheck = .checkSub := Server.pc_goto ..
  have hforward : s₆.pc (.forwarder topic) = .distList data := Server.pc_goto s₃ ..
  refine ⟨s₆, .cons h₁ (.cons h₂ (.cons h₃ (.cons h₄ (.cons h₅ (.single h₆))))), .aliveCheck,
    .forwarder topic, .clientList, .clientSubscribe, ?_⟩
  rw [hcheck, hforward]
  simp [Pc.Holds, Pc.held, Pc.Waits, Pc.wanted]

/-- **The condition**: no run reaches a deadlock if and only if no forwarder ever runs. -/
theorem no_deadlock_iff (q : Quiche Conn) (ipcs : List String) (rt : Bool) :
    (∀ ls s, Runs q ipcs rt ls s → ¬ Deadlock Pc.Holds Pc.Waits s.pc) ↔ rt = false ∨ ipcs = [] := by
  constructor
  · intro hnever
    by_contra hr
    obtain ⟨hrt, hne⟩ := not_or.1 hr
    obtain ⟨topic, ht⟩ := List.exists_mem_of_ne_nil ipcs hne
    rw [Bool.not_eq_false] at hrt
    subst hrt
    obtain ⟨s, hrun, hd⟩ := deadlock_message q ht []
    exact hnever _ s hrun hd
  · intro hr ls s hrun
    exact no_deadlock_of_quiet hrun (quiet_run hr hrun)

/-- **A subscription and a published message block each other**: the connection thread holds
`CLIENT_LIST` at the lock in `handle_sub`, the forwarder holds `CLIENT_SUBSCRIBE` at the lock
of `CLIENT_LIST`. -/
theorem deadlock_subscribe : ∃ ls s, Runs (sampleQuiche List.length) ["btc"] true ls s ∧
    Deadlock Pc.Holds Pc.Waits s.pc := by
  obtain ⟨s, hrun, hat⟩ := at_lockSub List.length "btc" "sub@btc"
  have htopic : "btc" ∈ s.clientSubscribe := Finmap.mem_of_lookup_eq_some hat.topic
  have h₁ : Step (sampleQuiche List.length) ["btc"] true s (.message "btc" [1]) _ :=
    Step.message hat.forwarder hat.spawned htopic
  have hat₁ := hat.goto_forwarder (.distSub [1])
  have h₂ : Step (sampleQuiche List.length) ["btc"] true (s.goto (.forwarder "btc") (.distSub [1]))
      (.distSub "btc") _ := Step.distSub hat₁.forwarder (hat₁.free (by decide) (by decide) (by decide))
  rw [if_pos ⟨hat₁.poisoned _, htopic⟩] at h₂
  have hat₂ := hat₁.goto_forwarder (.distList [1])
  refine ⟨_, _, (hrun.snoc h₁).snoc h₂, .connection, .forwarder "btc", .clientList, .clientSubscribe, ?_⟩
  rw [hat₂.connection, hat₂.forwarder]
  simp [Pc.Holds, Pc.held, Pc.Waits, Pc.wanted]

end CryptoMarket.Publisher
