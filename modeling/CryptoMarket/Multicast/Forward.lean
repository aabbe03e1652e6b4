import CryptoMarket.Lib.Log
import CryptoMarket.Lib.Run
import CryptoMarket.Lib.Text
import Mathlib.Data.List.TakeDrop

/-!
# Multicast server and client: forwarding

`receive_data`, `server` and `client` (`lib.rs`). Each task takes the messages of its ipc
and puts them on one channel; the server sends a datagram for each, and the client copies
each datagram through a buffer of 1600 bytes onto its own channel.

The network keeps the datagrams in order, `recv_from` fills the buffer at most and drops
the rest of a datagram, and the client's channel stays open.

* `forwarded_run`: what is delivered and in flight is an interleaving of what the tasks
  sent, the delivered messages cut at 1600 bytes.
* `output_interleaves_iff`: once all is delivered, the client has every message intact
  exactly when none is longer than 1600 bytes.
-/

namespace CryptoMarket.Multicast.Forward

variable {ι : Type} [DecidableEq ι]

/-- A task that runs `receive_data`. -/
inductive ReceiveData where
  /-- At `next` -/
  | waiting
  /-- Before `sender.send(message)` -/
  | sending (message : Bytes)
  | ended
  deriving DecidableEq, Repr

/-- The longest payload of a datagram. -/
def maxPayload : ℕ := 65507

/-- `[0u8; 1600]` -/
def zeroBuffer : Bytes := List.replicate 1600 0

/-- The tasks of the ipcs, the server and the client. -/
structure State (ι : Type) where
  tasks : ι → ReceiveData
  /-- Between `tx` and `rx` of the server, oldest first. -/
  channel : List Bytes
  /-- The loop over `rx` runs. -/
  serving : Bool
  /-- The datagrams on the way. -/
  network : List Bytes
  buffer : Bytes
  /-- What the client has put on its channel. -/
  output : List Bytes

/-- Every ipc has a task, and nothing was received yet. -/
def State.init : State ι := ⟨fun _ => .waiting, [], true, [], zeroBuffer, []⟩

/-- `recv_from`: the size, and the buffer. -/
def recvFrom (datagram buffer : Bytes) : ℕ × Bytes :=
  let size := min datagram.length buffer.length
  (size, datagram.take size ++ buffer.drop size)

inductive Label (ι : Type) where
  /-- The subscriber of a task yields a message. -/
  | receive (i : ι) (message : Bytes)
  | send (i : ι)
  /-- The subscriber ends or fails, or the task is aborted. -/
  | stop (i : ι)
  | sendTo
  | recvFrom

/-- One step of a task, of the server's loop or of the client's. -/
inductive Step : State ι → Label ι → State ι → Prop
  | receive {s : State ι} {i : ι} {message : Bytes} (hw : s.tasks i = .waiting) :
    Step s (.receive i message) { s with tasks := Function.update s.tasks i (.sending message) }
  | send {s : State ι} {i : ι} {message : Bytes} (hs : s.tasks i = .sending message)
      (hserving : s.serving = true) :
    Step s (.send i) { s with
      tasks := Function.update s.tasks i .waiting
      channel := s.channel ++ [message] }
  /-- `tx stop!` -/
  | sendError {s : State ι} {i : ι} {message : Bytes} (hs : s.tasks i = .sending message)
      (hserving : s.serving = false) :
    Step s (.send i) { s with tasks := Function.update s.tasks i .ended }
  | stop {s : State ι} {i : ι} (hw : s.tasks i = .waiting) :
    Step s (.stop i) { s with tasks := Function.update s.tasks i .ended }
  | sendTo {s : State ι} {data : Bytes} {rest : List Bytes} (hserving : s.serving = true)
      (hc : s.channel = data :: rest) (hlen : data.length ≤ maxPayload) :
    Step s .sendTo { s with channel := rest, network := s.network ++ [data] }
  /-- `multicast send error`: the loop ends, and `rx` is dropped. -/
  | sendToError {s : State ι} {data : Bytes} {rest : List Bytes} (hserving : s.serving = true)
      (hc : s.channel = data :: rest) (hlen : maxPayload < data.length) :
    Step s .sendTo { s with channel := [], serving := false }
  | recvFrom {s : State ι} {datagram : Bytes} {rest : List Bytes} (hn : s.network = datagram :: rest) :
    Step s .recvFrom { s with
      network := rest
      buffer := (Forward.recvFrom datagram s.buffer).2
      output := s.output ++
        [(Forward.recvFrom datagram s.buffer).2.take (Forward.recvFrom datagram s.buffer).1] }

/-- The messages that the subscriber of a task yields in a run. -/
def received (ls : List (Label ι)) (i : ι) : List Bytes :=
  ls.filterMap fun
    | .receive j message => if j = i then some message else none
    | _ => none

/-- No message is on its way. -/
structure State.Drained (s : State ι) : Prop where
  tasks : ∀ i message, s.tasks i ≠ .sending message
  channel : s.channel = []
  network : s.network = []

variable {s t : State ι} {l : Label ι} {ls : List (Label ι)}

/-! ## The client's buffer -/

/-- What is left of a message. -/
def cut (message : Bytes) : Bytes := message.take 1600

theorem cut_eq_iff {message : Bytes} : cut message = message ↔ message.length ≤ 1600 :=
  List.take_eq_self_iff message

/-- **One `recv_from`**: the bytes taken from the buffer are the beginning of the
datagram, and nothing of an earlier one. -/
theorem recvFrom_eq (datagram : Bytes) {buffer : Bytes} (hb : buffer.length = 1600) :
    (recvFrom datagram buffer).2.take (recvFrom datagram buffer).1 = cut datagram ∧
      (recvFrom datagram buffer).2.length = 1600 := by
  have hsize : (datagram.take (min datagram.length buffer.length)).length =
      min datagram.length buffer.length := by
    rw [List.length_take]; omega
  have hcut : datagram.take (min datagram.length 1600) = cut datagram := by
    unfold cut
    rcases Nat.le_total datagram.length 1600 with h | h
    · rw [Nat.min_eq_left h, List.take_of_length_le (Nat.le_refl _), List.take_of_length_le h]
    · rw [Nat.min_eq_right h]
  constructor
  · have htake : (recvFrom datagram buffer).2.take (recvFrom datagram buffer).1 =
        datagram.take (min datagram.length buffer.length) := List.take_left' hsize
    rw [htake, hb, hcut]
  · have hlen : (recvFrom datagram buffer).2.length = min datagram.length buffer.length +
        (buffer.length - min datagram.length buffer.length) := by
      simp only [recvFrom, List.length_append, List.length_drop, hsize]
    omega

/-! ## What is forwarded -/

/-- The message that a task has received and not sent. -/
def ReceiveData.held : ReceiveData → List Bytes
  | .sending message => [message]
  | _ => []

/-- The messages that were delivered, each cut, and those in flight are an interleaving of
what the tasks sent: of what they received, the one at hand apart. -/
structure Forwarded (ls : List (Label ι)) (s : State ι) : Prop where
  serving : s.serving = true
  buffer : s.buffer.length = 1600
  channel : ∀ data ∈ s.channel, data.length ≤ maxPayload
  held : ∀ i message, s.tasks i = .sending message → message.length ≤ maxPayload
  inFlight : ∃ delivered, s.output = delivered.map cut ∧
    ∃ sent : ι → List Bytes, (∀ i, received ls i = sent i ++ (s.tasks i).held) ∧
      Interleaves (delivered ++ s.network ++ s.channel) sent

theorem received_snoc (ls : List (Label ι)) (l : Label ι) (i : ι) :
    received (ls ++ [l]) i = received ls i ++ received [l] i := List.filterMap_append

/-- A step that receives nothing leaves what was received. -/
theorem received_snoc_of_ne (hl : ∀ i message, l ≠ .receive i message) (i : ι) :
    received (ls ++ [l]) i = received ls i := by
  rw [received_snoc]
  cases l with
  | receive j message => exact absurd rfl (hl j message)
  | send | stop | sendTo | recvFrom => simp [received]

theorem forwarded_init : Forwarded [] (State.init : State ι) where
  serving := rfl
  buffer := List.length_replicate
  channel _ h := by cases h
  held _ _ h := by cases h
  inFlight := ⟨[], rfl, fun _ => [], fun _ => rfl, Interleaves.nil⟩

/-- **One step** of any party, if what is received fits into a datagram. -/
theorem forwarded_step (hf : Forwarded ls s) (hstep : Step s l t)
    (hlen : ∀ i message, l = .receive i message → message.length ≤ maxPayload) :
    Forwarded (ls ++ [l]) t := by
  obtain ⟨delivered, hout, sent, hsent, hil⟩ := hf.inFlight
  -- a task that moves has nothing at hand before, or nothing after
  have hheld : ∀ {i : ι} {r : ReceiveData}, (∀ message, r ≠ .sending message) → ∀ j message,
      Function.update s.tasks i r j = .sending message → message.length ≤ maxPayload := by
    intro i r hr j message h
    by_cases hj : j = i
    · subst hj; rw [Function.update_self] at h; exact absurd h (hr message)
    · rw [Function.update_of_ne hj] at h; exact hf.held j message h
  cases hstep with
  | @receive i message hw =>
    refine ⟨hf.serving, hf.buffer, hf.channel, fun j m h => ?_, delivered, hout, sent, fun j => ?_, hil⟩
    · by_cases hj : j = i
      · subst hj
        simp only [Function.update_self, ReceiveData.sending.injEq] at h
        exact h ▸ hlen j message rfl
      · simp only [Function.update_of_ne hj] at h
        exact hf.held j m h
    · rw [received_snoc, hsent]
      by_cases hj : j = i
      · subst hj; simp [received, hw, ReceiveData.held]
      · simp [received, Ne.symm hj, Function.update_of_ne hj]
  | @send i message hs hserving =>
    have hmoved : Interleaves (delivered ++ s.network ++ (s.channel ++ [message]))
        (Function.update sent i (sent i ++ [message])) := by
      rw [← List.append_assoc]
      exact hil.snoc i message
    refine ⟨hf.serving, hf.buffer, fun d hd => ?_, hheld (by simp), delivered, hout, _, fun j => ?_, hmoved⟩
    · rcases List.mem_append.1 hd with hd | hd
      · exact hf.channel d hd
      · rw [List.mem_singleton.1 hd]; exact hf.held i message hs
    · rw [received_snoc_of_ne (by simp), hsent]
      by_cases hj : j = i
      · subst hj; simp [hs, ReceiveData.held]
      · simp [Function.update_of_ne hj]
  | sendError hs hserving => rw [hf.serving] at hserving; cases hserving
  | @stop i hw =>
    refine ⟨hf.serving, hf.buffer, hf.channel, hheld (by simp), delivered, hout, sent, fun j => ?_, hil⟩
    rw [received_snoc_of_ne (by simp), hsent]
    by_cases hj : j = i
    · subst hj; simp [hw, ReceiveData.held]
    · simp [Function.update_of_ne hj]
  | sendTo hserving hc hle =>
    refine ⟨hf.serving, hf.buffer, fun d hd => hf.channel d (hc ▸ List.mem_cons_of_mem _ hd), hf.held,
      delivered, hout, sent, fun j => ?_, ?_⟩
    · rw [received_snoc_of_ne (by simp), hsent]
    · rw [hc] at hil
      simpa using hil
  | sendToError hserving hc hlt =>
    exact absurd (hf.channel _ (hc ▸ List.mem_cons_self)) (Nat.not_le.2 hlt)
  | @recvFrom datagram rest hn =>
    obtain ⟨htaken, hbuffer⟩ := recvFrom_eq datagram hf.buffer
    refine ⟨hf.serving, hbuffer, hf.channel, hf.held, delivered ++ [datagram], ?_, sent, fun j => ?_, ?_⟩
    · simp only [htaken, hout, List.map_append, List.map_cons, List.map_nil]
    · rw [received_snoc_of_ne (by simp), hsent]
    · rw [hn] at hil
      simpa using hil

/-- **Along every run** whose messages fit into a datagram, what is delivered and in
flight is an interleaving of what the tasks sent, each delivered message cut. -/
theorem forwarded_run (h : Run Step State.init ls s)
    (hlen : ∀ i message, Label.receive i message ∈ ls → message.length ≤ maxPayload) :
    Forwarded ls s := by
  induction h with
  | nil => exact forwarded_init
  | snoc _ hstep ih =>
    refine forwarded_step (ih fun i m hm => hlen i m (by simp [hm])) hstep fun i m hl => ?_
    exact hlen i m (by simp [hl])

theorem mem_received {i : ι} {message : Bytes} : message ∈ received ls i ↔ Label.receive i message ∈ ls := by
  unfold received
  rw [List.mem_filterMap]
  constructor
  · rintro ⟨l, hl, heq⟩
    cases l with
    | receive j m =>
      simp only [Option.ite_none_right_eq_some, Option.some.injEq] at heq
      obtain ⟨rfl, rfl⟩ := heq
      exact hl
    | send | stop | sendTo | recvFrom => cases heq
  · intro h
    exact ⟨_, h, if_pos rfl⟩

/-! ## Short messages -/

/-- No message of the run is longer than the client's buffer. -/
def Short (ls : List (Label ι)) : Prop := ∀ i message, Label.receive i message ∈ ls → message.length ≤ 1600

/-- Short messages are delivered intact, and nothing is lost on the way. -/
theorem interleaves_of_short (hf : Forwarded ls s) (hshort : Short ls) :
    ∃ sent : ι → List Bytes, (∀ i, received ls i = sent i ++ (s.tasks i).held) ∧
      Interleaves (s.output ++ s.network ++ s.channel) sent := by
  obtain ⟨delivered, hout, sent, hsent, hil⟩ := hf.inFlight
  have hintact : ∀ message ∈ delivered, cut message = message := by
    intro message hm
    obtain ⟨i, hi⟩ := hil.mem_iff.1 (List.mem_append_left _ (List.mem_append_left _ hm))
    have hreceived : message ∈ received ls i := by
      rw [hsent]
      exact List.mem_append_left _ hi
    exact cut_eq_iff.2 (hshort i message (mem_received.1 hreceived))
  have houtput : s.output = delivered := by
    rw [hout]
    calc delivered.map cut = delivered.map id := List.map_congr_left hintact
      _ = delivered := List.map_id delivered
  exact ⟨sent, hsent, by rw [houtput]; exact hil⟩

/-- What the client puts on its channel is never longer than its buffer. -/
theorem short_of_interleaves (hf : Forwarded ls s) (hil : Interleaves s.output (received ls)) :
    Short ls := by
  obtain ⟨delivered, hout, -⟩ := hf.inFlight
  intro i message hm
  have hmem : message ∈ s.output := hil.mem_iff.2 ⟨i, mem_received.2 hm⟩
  rw [hout] at hmem
  obtain ⟨whole, -, rfl⟩ := List.mem_map.1 hmem
  exact List.length_take_le 1600 whole

/-- **Forwarding.** In every run whose messages fit into a datagram: if none is longer
than 1600 bytes, what the client has put on its channel and what is in flight is an
interleaving of what the tasks sent; and once all is delivered, what is on the channel is
an interleaving of the messages of the ipcs if and only if none is longer. -/
theorem output_interleaves_iff (h : Run Step State.init ls s)
    (hlen : ∀ i message, Label.receive i message ∈ ls → message.length ≤ maxPayload) :
    (Short ls → ∃ sent : ι → List Bytes, (∀ i, received ls i = sent i ++ (s.tasks i).held) ∧
      Interleaves (s.output ++ s.network ++ s.channel) sent) ∧
    (s.Drained → (Interleaves s.output (received ls) ↔ Short ls)) := by
  have hf := forwarded_run h hlen
  refine ⟨interleaves_of_short hf, fun hd => ⟨short_of_interleaves hf, fun hshort => ?_⟩⟩
  obtain ⟨sent, hsent, hil⟩ := interleaves_of_short hf hshort
  have hall : received ls = sent := by
    funext i
    rw [hsent]
    cases ht : s.tasks i with
    | sending message => exact absurd ht (hd.tasks i message)
    | waiting | ended => simp [ReceiveData.held]
  rw [hall]
  simpa [hd.network, hd.channel] using hil

/-! ## Runs -/

/-- From a state at rest a message of any ipc can be delivered. -/
theorem exists_run_message (i : ι) (message : Bytes) (hlen : message.length ≤ maxPayload)
    (hs : s.serving = true) (hw : ∀ j, s.tasks j = .waiting) (hd : s.Drained) :
    ∃ t, Run Step s [.receive i message, .send i, .sendTo, .recvFrom] t ∧ t.serving = true ∧
      (∀ j, t.tasks j = .waiting) ∧ t.Drained := by
  have hreceive : Step s (.receive i message)
      { s with tasks := Function.update s.tasks i (.sending message) } := .receive (hw i)
  have hsend : Step { s with tasks := Function.update s.tasks i (.sending message) } (.send i)
      { s with
        tasks := Function.update (Function.update s.tasks i (.sending message)) i .waiting
        channel := s.channel ++ [message] } := .send (by simp) hs
  have hwaiting : Function.update (Function.update s.tasks i (.sending message)) i .waiting = s.tasks := by
    rw [Function.update_idem, ← hw i, Function.update_eq_self]
  rw [hd.channel] at hreceive
  rw [hwaiting, hd.channel, List.nil_append] at hsend
  have hsendTo : Step { s with channel := [message] } .sendTo
      { s with channel := [], network := s.network ++ [message] } := .sendTo hs rfl hlen
  have hrecv : Step { s with channel := [], network := s.network ++ [message] } .recvFrom
      { s with
        channel := []
        network := []
        buffer := (recvFrom message s.buffer).2
        output := s.output ++ [(recvFrom message s.buffer).2.take (recvFrom message s.buffer).1] } :=
    .recvFrom (by simp [hd.network])
  refine ⟨_, Run.cons hreceive (Run.cons hsend (Run.cons hsendTo (Run.single hrecv))), hs, hw, ?_⟩
  exact ⟨hd.tasks, rfl, rfl⟩

omit [DecidableEq ι] in
theorem drained_init : (State.init : State ι).Drained := ⟨fun _ _ h => ReceiveData.noConfusion h, rfl, rfl⟩

/-- Two ipcs, each with a message. -/
theorem two_messages_interleaved : ∃ ls s, Run Step (State.init : State ℕ) ls s ∧
    received ls 0 = [[1, 2]] ∧ received ls 1 = [[3]] ∧ Interleaves s.output (received ls) := by
  obtain ⟨s, hrun, hs, hw, hd⟩ :=
    exists_run_message 0 [1, 2] (by decide) rfl (fun _ => rfl) (drained_init (ι := ℕ))
  obtain ⟨t, hrun', -, -, hd'⟩ := exists_run_message 1 [3] (by decide) hs hw hd
  refine ⟨_, t, hrun.append hrun', rfl, rfl, ?_⟩
  refine ((output_interleaves_iff (hrun.append hrun') ?_).2 hd').2 ?_
  · intro i message hm
    simp at hm
    obtain ⟨-, rfl⟩ | ⟨-, rfl⟩ := hm <;> decide
  · intro i message hm
    simp at hm
    obtain ⟨-, rfl⟩ | ⟨-, rfl⟩ := hm <;> decide

/-- **A message of 1601 bytes** loses its last. -/
theorem long_message_cut : ∃ ls s, Run Step (State.init : State ℕ) ls s ∧
    (∀ i message, Label.receive i message ∈ ls → message.length ≤ maxPayload) ∧ s.Drained ∧
      ¬ Interleaves s.output (received ls) := by
  have hlong : (List.replicate 1601 7 : Bytes).length = 1601 := List.length_replicate
  obtain ⟨s, hrun, -, -, hd⟩ := exists_run_message 0 (List.replicate 1601 7)
    (by rw [hlong]; decide) rfl (fun _ => rfl) (drained_init (ι := ℕ))
  have hlen : ∀ i message, Label.receive i message ∈
      [.receive 0 (List.replicate 1601 7), .send 0, .sendTo, .recvFrom] →
      message.length ≤ maxPayload := by
    intro i message hm
    simp only [List.mem_cons, Label.receive.injEq, reduceCtorEq, List.not_mem_nil, or_false] at hm
    rw [hm.2, hlong]
    decide
  refine ⟨_, s, hrun, hlen, hd, fun hil => ?_⟩
  have hshort := short_of_interleaves (forwarded_run hrun hlen) hil 0 (List.replicate 1601 7)
    List.mem_cons_self
  rw [hlong] at hshort
  omega

end CryptoMarket.Multicast.Forward
