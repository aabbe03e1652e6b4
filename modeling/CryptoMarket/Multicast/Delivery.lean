import CryptoMarket.Multicast.Server
import Mathlib.Algebra.BigOperators.Group.Finset.Piecewise
import Mathlib.Algebra.Order.BigOperators.Group.Finset

/-!
# Multicast server: everything received is delivered

When nothing new comes in, the tasks send what they have at hand, the server's loop sends the
datagrams, the network delivers all of them in order, and the client copies them onto its channel.

* `rank_step`: every such step lowers a rank.
* `all_delivered`: so they come to an end, whatever their order, and there all that the tasks
  have received is on the client's channel, each message cut.
-/

namespace CryptoMarket.Multicast

namespace Forward

variable {ι : Type} [DecidableEq ι] {s t : State ι} {l : Label ι} {ls : List (Label ι)} {F : Finset ι}

/-- A step that takes nothing in and ends no task. -/
def Own : Label ι → Prop
  | .receive _ _ | .stop _ => False
  | _ => True

/-- Only these tasks have a message at hand. -/
def Busy (F : Finset ι) (s : State ι) : Prop := ∀ i message, s.tasks i = .sending message → i ∈ F

/-- A task has to send the message at hand. -/
def ReceiveData.work : ReceiveData → ℕ
  | .sending _ => 1
  | _ => 0

/-- A message at hand is three steps from the client, one in the channel two. -/
def State.rank (F : Finset ι) (s : State ι) : ℕ :=
  3 * ∑ i ∈ F, (s.tasks i).work + 2 * s.channel.length + s.network.length

/-- In every run finitely many tasks have a message at hand. -/
theorem busy_run (h : Run Step State.init ls s) : ∃ F, Busy F s := by
  induction h with
  | nil => exact ⟨∅, fun i message hs => by cases hs⟩
  | @snoc ls s t l _ hst ih =>
    obtain ⟨F, hF⟩ := ih
    have hupdate : ∀ {i : ι} {r : ReceiveData}, Busy (insert i F)
        { s with tasks := Function.update s.tasks i r } := by
      intro i r j message hj
      by_cases hij : j = i
      · exact Finset.mem_insert.2 (Or.inl hij)
      · simp only [Function.update_of_ne hij] at hj
        exact Finset.mem_insert_of_mem (hF j message hj)
    cases hst with
    | receive hw => exact ⟨_, hupdate⟩
    | send hs hserving => exact ⟨_, hupdate⟩
    | sendError hs hserving => exact ⟨_, hupdate⟩
    | stop hw => exact ⟨_, hupdate⟩
    | sendTo hserving hc hle => exact ⟨F, hF⟩
    | sendToError hserving hc hlt => exact ⟨F, hF⟩
    | recvFrom hn => exact ⟨F, hF⟩

/-- A task has sent its message. -/
theorem work_update {i : ι} {message : Bytes} {r : ReceiveData} (hF : Busy F s)
    (hs : s.tasks i = .sending message) (hr : r.work = 0) :
    ∑ j ∈ F, (Function.update s.tasks i r j).work + 1 = ∑ j ∈ F, (s.tasks j).work := by
  have hi : i ∈ F := hF i message hs
  rw [← Finset.add_sum_erase F _ hi, ← Finset.add_sum_erase F (fun j => (s.tasks j).work) hi]
  have hrest : ∑ j ∈ F.erase i, (Function.update s.tasks i r j).work = ∑ j ∈ F.erase i, (s.tasks j).work :=
    Finset.sum_congr rfl fun j hj => by rw [Function.update_of_ne (Finset.ne_of_mem_erase hj)]
  have hone : (ReceiveData.sending message).work = 1 := rfl
  rw [hrest, Function.update_self, hr, hs, hone]
  omega

/-- **One step** of the tasks and the loops lowers the rank. -/
theorem rank_step (hF : Busy F s) (hst : Step s l t) (hl : Own l) : Busy F t ∧ t.rank F < s.rank F := by
  have hupdate : ∀ {i : ι} {r : ReceiveData}, (∀ message, r ≠ .sending message) → ∀ j message,
      Function.update s.tasks i r j = .sending message → j ∈ F := by
    intro i r hr j message hj
    by_cases hij : j = i
    · rw [hij, Function.update_self] at hj
      exact absurd hj (hr message)
    · rw [Function.update_of_ne hij] at hj
      exact hF j message hj
  unfold State.rank
  cases hst with
  | receive | stop => exact hl.elim
  | @send i message hs hserving =>
    have hwork := work_update (r := .waiting) hF hs rfl
    refine ⟨hupdate (by simp), ?_⟩
    simp only [List.length_append, List.length_singleton]
    omega
  | @sendError i message hs hserving =>
    have hwork := work_update (r := .ended) hF hs rfl
    refine ⟨hupdate (by simp), ?_⟩
    simp only
    omega
  | sendTo hserving hc hle =>
    refine ⟨hF, ?_⟩
    simp only [hc, List.length_append, List.length_cons, List.length_nil]
    omega
  | sendToError hserving hc hlt =>
    refine ⟨hF, ?_⟩
    simp only [hc, List.length_cons, List.length_nil]
    omega
  | recvFrom hn =>
    refine ⟨hF, ?_⟩
    simp only [hn, List.length_cons]
    omega

/-- Where no such step is left, nothing is on its way. -/
theorem drained_of_stuck (hserving : s.serving = true) (hstop : ∀ l t, Own l → ¬ Step s l t) :
    s.Drained := by
  refine ⟨fun i message hs => ?_, ?_, ?_⟩
  · exact hstop (.send i) _ trivial (.send hs hserving)
  · cases hc : s.channel with
    | nil => rfl
    | cons data rest =>
      by_cases hle : data.length ≤ maxPayload
      · exact absurd (.sendTo hserving hc hle) (hstop .sendTo _ trivial)
      · exact absurd (.sendToError hserving hc (Nat.lt_of_not_le hle)) (hstop .sendTo _ trivial)
  · cases hn : s.network with
    | nil => rfl
    | cons datagram rest => exact absurd (.recvFrom hn) (hstop .recvFrom _ trivial)

end Forward

variable {s s' : Server} {l : ServerLabel} {ls ms : List ServerLabel} {config : List IpcBasicRepr}

/-- A step of the tasks, the server's loop or the client that takes nothing in. -/
def Own (_ : Server) : ServerLabel → Prop
  | .forward l => Forward.Own l
  | _ => False

/-- **The steps end** from every reachable server. -/
theorem ends (h : Run ServerStep (Server.start config) ls s) : Ends (Guarded ServerStep Own) s := by
  obtain ⟨F, hF⟩ := Forward.busy_run (forward_run h)
  have hstep : ∀ s l t, Forward.Busy F s.forward → Guarded ServerStep Own s l t →
      Forward.Busy F t.forward ∧ t.forward.rank F < s.forward.rank F := by
    rintro s l t hbusy ⟨hst, hown⟩
    cases hst with
    | event | cancel => exact hown.elim
    | forward hcreated hst => exact Forward.rank_step hbusy hst hown
  exact Ends.of_rank (P := fun s => Forward.Busy F s.forward) (fun s => s.forward.rank F)
    (fun s l t hs hst => (hstep s l t hs hst).1) (fun s l t hs hst => (hstep s l t hs hst).2) hF

/-- These steps receive nothing. -/
theorem received_own (h : Run (Guarded ServerStep Own) s ms s') (i : ℕ) :
    Forward.received (forwarding ms) i = [] := by
  induction h with
  | nil => rfl
  | @snoc ms t u l _ hst ih =>
    obtain ⟨-, hown⟩ := hst
    cases l with
    | event | cancel => exact hown.elim
    | forward l =>
      rw [forwarding_snoc, show (ServerLabel.forward l).forwarding.toList = [l] from rfl,
        Forward.received_snoc, ih]
      cases l with
      | receive | stop => exact hown.elim
      | send | sendTo | recvFrom => rfl

/-- **Everything received is delivered.** From every reachable server whose messages fit into a
datagram, when nothing new comes in, the tasks, the server's loop and the client come to an end,
whatever the order of their steps; and there the client has put on its channel an interleaving
of all that the tasks have received, each message cut at 1600 bytes. The network loses nothing. -/
theorem all_delivered (h : Run ServerStep (Server.start config) ls s)
    (hlen : ∀ i message, .receive i message ∈ forwarding ls → message.length ≤ Forward.maxPayload) :
    Ends (Guarded ServerStep Own) s ∧
    ∀ ms s', Run (Guarded ServerStep Own) s ms s' → (∀ l t, ¬ Guarded ServerStep Own s' l t) →
      s'.forward.Drained ∧ ∃ delivered, s'.forward.output = delivered.map Forward.cut ∧
        Interleaves delivered (Forward.received (forwarding ls)) := by
  refine ⟨ends h, fun ms s' h' hstop => ?_⟩
  have hrun := h.append (Run.of_guarded h')
  have happend : forwarding (ls ++ ms) = forwarding ls ++ forwarding ms := List.filterMap_append
  have hlen' : ∀ i message, .receive i message ∈ forwarding (ls ++ ms) →
      message.length ≤ Forward.maxPayload := by
    intro i message hm
    rw [happend, List.mem_append] at hm
    refine hm.elim (hlen i message) fun hm => ?_
    have hreceived := Forward.mem_received.2 hm
    rw [received_own h' i] at hreceived
    exact absurd hreceived List.not_mem_nil
  have hf := Forward.forwarded_run (forward_run hrun) hlen'
  have hdrained : s'.forward.Drained := by
    refine Forward.drained_of_stuck hf.serving fun l t hown hst => ?_
    have hnew : ∀ i message, l = .receive i message → s'.ipcOf i ≠ none := by
      rintro i message rfl
      exact hown.elim
    exact hstop (.forward l) _ ⟨.forward hnew hst, hown⟩
  obtain ⟨delivered, hout, sent, hsent, hil⟩ := hf.inFlight
  have hall : sent = Forward.received (forwarding ls) := by
    funext i
    have hreceived := hsent i
    have hheld : (s'.forward.tasks i).held = [] := by
      cases ht : s'.forward.tasks i with
      | sending message => exact absurd ht (hdrained.tasks i message)
      | waiting | ended => rfl
    rw [hheld, List.append_nil, happend] at hreceived
    rw [← hreceived]
    show Forward.received (forwarding ls ++ forwarding ms) i = _
    rw [Forward.received, List.filterMap_append]
    exact (congrArg _ (received_own h' i)).trans (List.append_nil _)
  rw [hdrained.network, hdrained.channel, List.append_nil, List.append_nil, hall] at hil
  exact ⟨hdrained, delivered, hout, hil⟩

/-- A task has a message at hand. -/
theorem all_delivered_one : ∃ (s s' : Server) (ms : List ServerLabel),
    Run ServerStep (Server.start oneUrl) [.forward (.receive 0 [1])] s ∧
    Run (Guarded ServerStep Own) s ms s' ∧ ∃ delivered, s'.forward.output = delivered.map Forward.cut ∧
      Interleaves delivered (Forward.received [.receive 0 [1]]) := by
  have hrun := Run.single receive_oneUrl
  have hlen : ∀ i message, .receive i message ∈ forwarding [.forward (.receive 0 [1])] →
      message.length ≤ Forward.maxPayload := by
    intro i message hm
    have hone : (Forward.Label.receive i message) = .receive 0 [1] := by
      simpa [forwarding, ServerLabel.forwarding] using hm
    cases hone
    decide
  obtain ⟨hends, hall⟩ := all_delivered hrun hlen
  obtain ⟨ms, s', hrun', hstop⟩ := hends.exists_run
  exact ⟨_, s', ms, hrun, hrun', (hall ms s' hrun' hstop).2⟩

end CryptoMarket.Multicast
