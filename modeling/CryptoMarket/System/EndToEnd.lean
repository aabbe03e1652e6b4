import CryptoMarket.Integration.Names
import CryptoMarket.Integration.Pipeline
import CryptoMarket.Lib.Wiring
import CryptoMarket.Multicast.Server
import CryptoMarket.Publisher.Wire
import CryptoMarket.Replay.Feeds

/-!
# From the crawler to the users

The integration server publishes each channel on an ipc, and the recorder, the multicast server,
the publisher server and the replay server subscribe to it. The queue between them is not part
of the repository: it keeps the order and may lose messages (`Wiring`).

* `got_owed`: what any subscriber yields are records of the crawled messages for its channel.
* `recorded_end_to_end`: so are the entries of the recorder,
* `multicast_end_to_end`: what each task of the multicast server sends,
* `handed_end_to_end`: what a client of the publisher server is handed for the topic,
* `received_end_to_end`: what the program of this client passes on,
* `sent_end_to_end`: and what a client of the replay server is sent of a listed entry.

In each case they come in the order of the crawler and each at most once.
-/

namespace CryptoMarket.System

open Integration

variable {x : Libs} {mq : Mq} {ch : Channel x} {key : String} {s s' : Pipeline x} {l : PipeLabel x}

/-! ## The integration server as a publisher -/

/-- **One step** of the integration server adds to what was written. -/
theorem written_grows (hst : PipeStep mq ch s l s') : s.writers.written key <+: s'.writers.written key := by
  cases hst with
  | @write msg symbol dataByte v log writers hw hmq =>
    obtain ⟨hlog, hwritten⟩ := writerMq_eq_some hmq
    split
    · rw [written_insert]
      split
      · next hk => exact ⟨[dataByte], by rw [hk, hlog]⟩
      · exact ⟨[], by rw [List.append_nil, hwritten]⟩
    · exact ⟨[], by rw [List.append_nil, hwritten]⟩
  | _ => exact List.prefix_refl _

variable {τ κ ν : Type} [DecidableEq ν]

/-- The channel of a key, with a program that subscribes to it. -/
def subscribed (mq : Mq) (ch : Channel x) (key : String) (consume : τ → κ → τ → Prop)
    (input : κ → Option (ν × Bytes)) (loses : Prop) : Wiring (Pipeline x) (PipeLabel x) Bytes τ κ ν where
  publish := PipeStep mq ch
  output s := s.writers.written key
  grows := written_grows
  consume := consume
  input := input
  loses := loses

variable {consume : τ → κ → τ → Prop} {input : κ → Option (ν × Bytes)} {loses : Prop} {t₀ : τ}
  {ls : List (WireLabel (PipeLabel x) κ ν)} {y : Wired (Pipeline x) Bytes τ ν}

/-- **What a subscriber yields** are records of the messages that the crawler has sent, in their
order and each at most once. -/
theorem got_owed (h : (subscribed mq ch key consume input loses).Runs (Pipeline.init x) t₀ ls y) (n : ν) :
    ((subscribed mq ch key consume input loses).got ls n ++ y.queue n).Sublist
      (owed ch (accepted (Wiring.sources ls)) key) := by
  have hrun := Wiring.source_run h
  exact (Wiring.got_sublist h n).trans ((booksOK_run hrun key).owed.trans (owed_taken hrun key).sublist)

/-- **If nothing is lost**, a subscriber yields all that the arm makes of the messages that the
writer has taken, but what is in the queue and at hand. -/
theorem got_due (hl : ¬ loses) (hmq : mq.Works)
    (h : (subscribed mq ch key consume input loses).Runs (Pipeline.init x) t₀ ls y)
    (hn : y.source.writer ≠ .panicked) (n : ν) :
    (subscribed mq ch key consume input loses).got ls n ++ y.queue n ++ y.source.writer.pending ch key =
      due ch (taken (Wiring.sources ls)) key := by
  have hnone : Writers.written (Pipeline.init x).writers key = [] := by
    simp [Pipeline.init, Writers.written]
  rw [Wiring.got_eq hl hnone h n]
  exact (booksOK_run (Wiring.source_run h) key).all hmq hn

/-! ## The recorder -/

/-- What the subscriber of the recorder yields: a message, with whether the data writer accepts
its entry, or an error. -/
abbrev Yield := Except String (Bytes × Bool)

/-- The integration server and the subscriber of a recorder, with what it has yielded. -/
def recorderWiring (mq : Mq) (ch : Channel x) (key : String) (loses : Prop) :
    Wiring (Pipeline x) (PipeLabel x) Bytes (List Yield) Yield Unit :=
  subscribed mq ch key (fun received item received' => received' = received ++ [item])
    (fun
      | .ok (message, _) => some ((), message)
      | .error _ => none) loses

/-- The messages among what was yielded. -/
def messages (received : List Yield) : List Bytes :=
  received.filterMap fun
    | .ok (message, _) => some message
    | .error _ => none

theorem recordLoop_prefix (ipc : String) : ∀ received : List Yield,
    (recordLoop ipc received).map DataEntry.data <+: messages received := by
  intro received
  induction received with
  | nil => exact List.prefix_refl _
  | cons item received ih =>
    obtain _ | ⟨message, accepted⟩ := item
    · exact List.nil_prefix
    · have hone : messages (.ok (message, accepted) :: received) = message :: messages received := rfl
      rw [hone, recordLoop, List.map_cons, List.prefix_cons_inj]
      cases accepted with
      | true => exact ih
      | false => exact List.nil_prefix

theorem recordLoop_all (ipc : String) : ∀ received : List Yield,
    (∀ item ∈ received, ∃ message, item = .ok (message, true)) →
      (recordLoop ipc received).map DataEntry.data = messages received := by
  intro received
  induction received with
  | nil => intro _; rfl
  | cons item received ih =>
    intro hall
    obtain ⟨message, rfl⟩ := hall item List.mem_cons_self
    have hrest := ih fun item' hitem => hall item' (List.mem_cons_of_mem _ hitem)
    have hone : messages (.ok (message, true) :: received) = message :: messages received := rfl
    rw [hone, recordLoop, if_pos rfl, List.map_cons, hrest]

/-- The messages are what the subscriber took from its queue. -/
theorem messages_eq_got {ls : List (WireLabel (PipeLabel x) Yield Unit)}
    {y : Wired (Pipeline x) Bytes (List Yield) Unit}
    (h : (recorderWiring mq ch key loses).Runs (Pipeline.init x) [] ls y) :
    messages y.sink = (recorderWiring mq ch key loses).got ls () := by
  have hsink : y.sink = Wiring.sinks ls := by
    refine Run.hist_inv (P := fun items received => received = items) rfl ?_ (Wiring.sink_run h)
    rintro items received item received' - rfl hst
    exact hst
  rw [hsink]
  refine (Wiring.got_eq_filterMap _ fun item => ?_).symm
  cases item <;> rfl

/-- **What is recorded.** In every run of the integration server and a recorder of a channel: the
entries are under the name of the channel, and their data are records of the messages that the
crawler has sent, in their order and each at most once. If neither the queue nor the data
writer nor the subscriber fails, it is all that the arm makes of the messages taken, but what is
in the queue and at hand. -/
theorem recorded_end_to_end {ls : List (WireLabel (PipeLabel x) Yield Unit)}
    {y : Wired (Pipeline x) Bytes (List Yield) Unit}
    (h : (recorderWiring mq ch key loses).Runs (Pipeline.init x) [] ls y) (started connected : Bool) :
    (∀ entry ∈ createWriteFileThread started connected (fileName key) y.sink,
      entry.filename = fileName key) ∧
    ((createWriteFileThread started connected (fileName key) y.sink).map DataEntry.data).Sublist
      (owed ch (accepted (Wiring.sources ls)) key) ∧
    (¬ loses → mq.Works → y.source.writer ≠ .panicked → started = true → connected = true →
      (∀ item ∈ y.sink, ∃ message, item = .ok (message, true)) →
      (createWriteFileThread started connected (fileName key) y.sink).map DataEntry.data ++ y.queue () ++
        y.source.writer.pending ch key = due ch (taken (Wiring.sources ls)) key) := by
  have hgot := messages_eq_got h
  refine ⟨fun entry => filename_of_mem, ?_, fun hl hmq hn hs hc hall => ?_⟩
  · have hprefix : (createWriteFileThread started connected (fileName key) y.sink).map DataEntry.data <+:
        messages y.sink := by
      unfold createWriteFileThread
      split
      · exact recordLoop_prefix _ _
      · exact List.nil_prefix
    rw [hgot] at hprefix
    exact hprefix.sublist.trans ((List.sublist_append_left _ _).trans (got_owed h ()))
  · rw [createWriteFileThread, if_pos ⟨hs, hc⟩, recordLoop_all _ _ hall, hgot]
    exact got_due hl hmq h hn ()

/-- The channel of the pair. -/
def btcKey : String := "binance_spot_trade_BTCUSDT"

/-- The trade of the pair is written, and nothing more is at hand for it. -/
theorem btc_written : ∃ s, Run (PipeStep workingMq (pairsChannel .trade)) (Pipeline.init twoPairs) pairsLabels s ∧
    s.writers.written btcKey = [[1]] ∧ s.writer.pending (pairsChannel .trade) btcKey = [] ∧
      s.writer ≠ .panicked := by
  obtain ⟨s, hrun, hw, -⟩ := pairs_run
  have hpending : s.writer.pending (pairsChannel .trade) btcKey = [] := by
    rw [hw]
    decide
  have hdue : due (pairsChannel .trade) (taken pairsLabels) btcKey = [[1]] := by decide
  have hall := (booksOK_run hrun btcKey).all workingMq_works (by simp [hw])
  rw [hpending, hdue, List.append_nil] at hall
  exact ⟨s, hrun, hall, hpending, by simp [hw]⟩

/-- The message is crawled twice. -/
def twiceLabels : List (PipeLabel twoPairs) := pairsLabels ++ [.write, .next] ++ pairsLabels

/-- Both trades of the pair are written. -/
theorem btc_twice : ∃ s, Run (PipeStep workingMq (pairsChannel .trade)) (Pipeline.init twoPairs) twiceLabels s ∧
    s.writers.written btcKey = [[1], [1]] := by
  obtain ⟨s₁, hrun₁, hw₁, hc₁, hrx₁⟩ := pairs_run
  obtain ⟨log, writers, hmq⟩ :=
    exists_writerMq workingMq_works ((pairsChannel .trade).key (pairsMessage .trade) "ETHUSDT") s₁.writers
  have hwrite : PipeStep workingMq (pairsChannel .trade) s₁ .write _ := .write hw₁ hmq
  obtain ⟨s₂, hrun₂, hc₂, hrx₂, hw₂⟩ : ∃ s₂, Run (PipeStep workingMq (pairsChannel .trade)) s₁ [.write, .next] s₂ ∧
      s₂.closed = false ∧ s₂.rx = [] ∧ s₂.writer = .receiving :=
    ⟨_, Run.cons hwrite (Run.single (.next rfl)), hc₁, hrx₁, rfl⟩
  obtain ⟨s, hrun₃, hw₃, -⟩ := pairs_from hc₂ hrx₂ hw₂
  have hrun := (hrun₁.append hrun₂).append hrun₃
  have hpending : s.writer.pending (pairsChannel .trade) btcKey = [] := by
    rw [hw₃]
    decide
  have hdue : due (pairsChannel .trade) (taken twiceLabels) btcKey = [[1], [1]] := by decide
  have hall := (booksOK_run hrun btcKey).all workingMq_works (by simp [hw₃])
  rw [hpending, List.append_nil] at hall
  exact ⟨s, hrun, hall.trans hdue⟩

/-- The trade is recorded. -/
theorem recorded_end_to_end_btc : ∃ ls y,
    (recorderWiring workingMq (pairsChannel .trade) btcKey False).Runs (Pipeline.init twoPairs) [] ls y ∧
    ((createWriteFileThread true true (fileName btcKey) y.sink).map DataEntry.data).Sublist [[1]] ∧
    (createWriteFileThread true true (fileName btcKey) y.sink).map DataEntry.data = [[1]] := by
  obtain ⟨s, hrun, hwritten, hpending, hn⟩ := btc_written
  set W := recorderWiring workingMq (pairsChannel .trade) btcKey False with hW
  have hsink : Run W.consume [] [.ok ([1], true)] [.ok ([1], true)] := Run.single rfl
  have hfit : ∀ n : Unit, [Except.ok ([1], true)].flatMap (W.taken n) ++ [] = W.output s :=
    fun _ => hwritten.symm
  have hruns := Wiring.runs_of (show W.output (Pipeline.init twoPairs) = [] from rfl) hrun hsink
    (fun _ => []) hfit
  obtain ⟨-, hsub, hall⟩ := recorded_end_to_end hruns true true
  have hdone := hall not_false workingMq_works hn rfl rfl (by simp)
  rw [hpending, List.append_nil, List.append_nil] at hdone
  exact ⟨_, _, hruns, hsub, hdone⟩

/-! ## The multicast server -/

/-- The integration server and a multicast server; the tasks that `listens` names have their
subscribers on the channel of the key. -/
def multicastWiring (listens : ℕ → Bool) (mq : Mq) (ch : Channel x) (key : String) (loses : Prop) :
    Wiring (Pipeline x) (PipeLabel x) Bytes Multicast.Server Multicast.ServerLabel ℕ :=
  subscribed mq ch key Multicast.ServerStep
    (fun
      | .forward (.receive i message) => if listens i then some (i, message) else none
      | _ => none) loses

variable {listens : ℕ → Bool} {config : List Multicast.IpcBasicRepr}

/-- What a task receives is what it took from its queue. -/
theorem forwarded_eq_got {i : ℕ} (hi : listens i = true)
    (ls : List (WireLabel (PipeLabel x) Multicast.ServerLabel ℕ)) :
    Multicast.Forward.received (Multicast.forwarding (Wiring.sinks ls)) i =
      (multicastWiring listens mq ch key loses).got ls i := by
  rw [Multicast.forwarding, Multicast.Forward.received, List.filterMap_filterMap]
  refine (Wiring.got_eq_filterMap _ fun l => ?_).symm
  cases l with
  | event e => rfl
  | cancel j => rfl
  | forward fl =>
    cases fl with
    | receive j message =>
      by_cases hj : j = i
      · subst hj
        simp [Multicast.ServerLabel.forwarding, Wiring.taken, multicastWiring, subscribed, hi]
      · by_cases hlisten : listens j = true <;>
          simp [Multicast.ServerLabel.forwarding, Wiring.taken, multicastWiring, subscribed, hj, hlisten]
    | _ => rfl

/-- **What the multicast client gets.** In every run of the integration server and a multicast
server whose messages fit into a datagram, over a network that loses nothing and keeps the order,
whatever is changed in the configuration: what the client has put on its channel, each message
cut at 1600 bytes, and what is in flight interleaves what the tasks sent; every task has sent what
it has received, but the message at hand; and what a task sent whose subscriber is on a channel
are records of the messages that the crawler has sent, in their order and each at most once. If
nothing gets lost in the queue, it has sent all that the arm makes of the messages taken by the
writer, but what is at hand and in the queue. -/
theorem multicast_end_to_end {ls : List (WireLabel (PipeLabel x) Multicast.ServerLabel ℕ)}
    {y : Wired (Pipeline x) Bytes Multicast.Server ℕ}
    (h : (multicastWiring listens mq ch key loses).Runs (Pipeline.init x) (Multicast.Server.start config) ls y)
    (hlen : ∀ i message, .receive i message ∈ Multicast.forwarding (Wiring.sinks ls) →
      message.length ≤ Multicast.Forward.maxPayload) :
    ∃ (delivered : List Bytes) (sent : ℕ → List Bytes),
      y.sink.forward.output = delivered.map Multicast.Forward.cut ∧
      Interleaves (delivered ++ y.sink.forward.network ++ y.sink.forward.channel) sent ∧
      (∀ i, Multicast.Forward.received (Multicast.forwarding (Wiring.sinks ls)) i =
        sent i ++ (y.sink.forward.tasks i).held) ∧
      ∀ i, listens i = true →
        (sent i).Sublist (owed ch (accepted (Wiring.sources ls)) key) ∧
        (¬ loses → mq.Works → y.source.writer ≠ .panicked →
          sent i ++ (y.sink.forward.tasks i).held ++ y.queue i ++ y.source.writer.pending ch key =
            due ch (taken (Wiring.sources ls)) key) := by
  have hrun : Run Multicast.ServerStep (Multicast.Server.start config) (Wiring.sinks ls) y.sink :=
    Wiring.sink_run h
  obtain ⟨delivered, hout, sent, hsent, hil⟩ :=
    (Multicast.Forward.forwarded_run (Multicast.forward_run hrun) hlen).inFlight
  refine ⟨delivered, sent, hout, hil, hsent, fun i hi => ?_⟩
  have hgot : sent i ++ (y.sink.forward.tasks i).held =
      (multicastWiring listens mq ch key loses).got ls i := (hsent i).symm.trans (forwarded_eq_got hi ls)
  refine ⟨?_, fun hl hmq hn => ?_⟩
  · have howed := got_owed h i
    rw [show (subscribed mq ch key _ _ loses).got ls i = _ from hgot.symm, List.append_assoc] at howed
    exact (List.sublist_append_left _ _).trans howed
  · rw [hgot]
    exact got_due hl hmq h hn i

/-- The trade gets to the client. -/
theorem multicast_end_to_end_btc : ∃ ls y,
    (multicastWiring (fun i => i = 0) workingMq (pairsChannel .trade) btcKey False).Runs
      (Pipeline.init twoPairs) (Multicast.Server.start Multicast.oneUrl) ls y ∧
    y.sink.forward.output = [[1]] ∧ ∃ (delivered : List Bytes) (sent : ℕ → List Bytes),
      [[1]] = delivered.map Multicast.Forward.cut ∧ Interleaves (delivered ++ [] ++ []) sent ∧
      (sent 0).Sublist [[1]] ∧ sent 0 ++ [] ++ [] ++ [] = [[1]] := by
  obtain ⟨s, hrun, hwritten, hpending, hn⟩ := btc_written
  set W := multicastWiring (fun i => i = 0) workingMq (pairsChannel .trade) btcKey False with hW
  obtain ⟨server, hsink, houtput, hnetwork, hchannel, htask⟩ := Multicast.delivered_oneUrl
  have hfit : ∀ m, [Multicast.ServerLabel.forward (.receive 0 [1]), .forward (.send 0), .forward .sendTo,
      .forward .recvFrom].flatMap (W.taken m) ++ (if 0 = m then [] else [[1]]) = W.output s := by
    intro m
    rw [show W.output s = [[1]] from hwritten]
    by_cases hm : 0 = m <;>
      simp [Wiring.taken, hW, multicastWiring, subscribed, hm]
  have hruns := Wiring.runs_of (show W.output (Pipeline.init twoPairs) = [] from rfl) hrun hsink
    (fun m => if 0 = m then [] else [[1]]) hfit
  obtain ⟨delivered, sent, hout, hil, -, hall⟩ := multicast_end_to_end hruns (fun i message hm => by
    have hone : (Multicast.Forward.Label.receive i message) = .receive 0 [1] := by
      simpa [Wiring.sinks, Multicast.forwarding, Multicast.ServerLabel.forwarding] using hm
    cases hone
    decide)
  obtain ⟨hsub, hdue⟩ := hall 0 (by simp)
  have hdone := hdue not_false workingMq_works hn
  rw [hpending, htask] at hdone
  rw [hnetwork, hchannel] at hil
  rw [houtput] at hout
  exact ⟨_, _, hruns, houtput, delivered, sent, hout, hil, hsub, hdone⟩

/-! ## The publisher server -/

variable {Conn : Type}

/-- The integration server and a publisher server whose topic is the channel of the key. -/
def publisherWiring (q : Publisher.Quiche Conn) (ipcs : List String) (rt : Bool) (mq : Mq) (ch : Channel x)
    (key : String) (loses : Prop) : Wiring (Pipeline x) (PipeLabel x) Bytes
      (Publisher.Server Conn × List Publisher.DistEvent) Publisher.Label Unit :=
  subscribed mq ch key (Logged (Publisher.Step q ipcs rt) (Publisher.distEvents q))
    (fun
      | .message topic data => if topic = fileName key then some ((), data) else none
      | _ => none) loses

variable {q : Publisher.Quiche Conn} {ipcs : List String} {rt : Bool}

/-- The messages of the topic are what the forwarder took from its queue. -/
theorem published_eq_got (ls : List (WireLabel (PipeLabel x) Publisher.Label Unit)) :
    Publisher.published (Wiring.sinks ls) (fileName key) =
      (publisherWiring q ipcs rt mq ch key loses).got ls () := by
  refine (Wiring.got_eq_filterMap _ fun l => ?_).symm
  cases l with
  | message topic data =>
    by_cases ht : topic = fileName key <;> simp [Wiring.taken, publisherWiring, subscribed, ht]
  | _ => rfl

/-- What a forwarder takes are records of the channel. -/
theorem published_owed {ls : List (WireLabel (PipeLabel x) Publisher.Label Unit)}
    {y : Wired (Pipeline x) Bytes (Publisher.Server Conn × List Publisher.DistEvent) Unit}
    (h : (publisherWiring q ipcs rt mq ch key loses).Runs (Pipeline.init x) (Publisher.Server.init Conn, []) ls y) :
    (Publisher.published (Wiring.sinks ls) (fileName key)).Sublist (owed ch (accepted (Wiring.sources ls)) key) := by
  have hgot : Publisher.published (Wiring.sinks ls) (fileName key) =
      (publisherWiring q ipcs rt mq ch key loses).got ls () := published_eq_got ls
  rw [hgot]
  exact (List.sublist_append_left _ _).trans (got_owed h ())

/-- **What a client of the publisher is handed.** In every run of the integration server and a
publisher server, whatever the threads do and whoever subscribes: what a client is handed for
the topic of a channel, if forwarders run at all, are records of the messages that the crawler
has sent, in their order and each at most once. If nothing gets lost in the queue, the forwarder
has taken all that the arm makes of the messages taken by the writer, but what is in the queue
and at hand. -/
theorem handed_end_to_end {ls : List (WireLabel (PipeLabel x) Publisher.Label Unit)}
    {y : Wired (Pipeline x) Bytes (Publisher.Server Conn × List Publisher.DistEvent) Unit}
    (h : (publisherWiring q ipcs rt mq ch key loses).Runs (Pipeline.init x) (Publisher.Server.init Conn, []) ls y)
    (cid : Publisher.ConnectionId) :
    (Publisher.handed y.sink.2 (fileName key) cid).Sublist (owed ch (accepted (Wiring.sources ls)) key) ∧
    (¬ loses → mq.Works → y.source.writer ≠ .panicked →
      Publisher.published (Wiring.sinks ls) (fileName key) ++ y.queue () ++ y.source.writer.pending ch key =
        due ch (taken (Wiring.sources ls)) key) := by
  refine ⟨?_, fun hl hmq hn => ?_⟩
  · have hhanded := (Publisher.ordered_run (Wiring.sink_run h) (fileName key)).handed cid
    exact hhanded.trans (published_owed h)
  · have hgot : Publisher.published (Wiring.sinks ls) (fileName key) =
        (publisherWiring q ipcs rt mq ch key loses).got ls () := published_eq_got ls
    rw [hgot]
    exact got_due hl hmq h hn ()

/-- A command for the channel of the pair. -/
def btcCommand : String := "sub@binance_spot_trade_BTCUSDT"

theorem subscribes_btcKey : Publisher.Subscribes btcCommand (fileName btcKey) := ⟨by decide, by decide⟩

/-- The trade is handed to a client that subscribes to the channel. -/
theorem btc_handed : ∃ s server,
    (publisherWiring (Publisher.topicQuiche List.length btcCommand) [fileName btcKey] true workingMq
      (pairsChannel .trade) btcKey False).Runs (Pipeline.init twoPairs)
      (Publisher.Server.init (List Bytes), []) (pairsLabels.map .source ++
        (Publisher.handSteps (fileName btcKey) btcCommand [1]).map .sink)
      ⟨s, fun _ => [], (server, Publisher.handLog (fileName btcKey) [1])⟩ ∧
    server.clientList.lookup Publisher.sampleCid = some ⟨[], ∅, [⟨0, [1], false, .ok 1⟩]⟩ ∧
    s.writer.pending (pairsChannel .trade) btcKey = [] ∧ s.writer ≠ .panicked := by
  obtain ⟨s, hrun, hwritten, hpending, hn⟩ := btc_written
  obtain ⟨server, hserver, hat⟩ := Publisher.at_handed List.length subscribes_btcKey [1]
  set W := publisherWiring (Publisher.topicQuiche List.length btcCommand) [fileName btcKey] true workingMq
    (pairsChannel .trade) btcKey False with hW
  have hsink : Run W.consume (Publisher.Server.init (List Bytes), [])
    (Publisher.handSteps (fileName btcKey) btcCommand [1])
    (server, Publisher.handLog (fileName btcKey) [1]) := hserver
  have hfit : ∀ n : Unit, (Publisher.handSteps (fileName btcKey) btcCommand [1]).flatMap (W.taken n) ++ [] =
      W.output s := fun _ => hwritten.symm
  exact ⟨s, server, Wiring.runs_of (show W.output (Pipeline.init twoPairs) = [] from rfl) hrun hsink
    (fun _ => []) hfit, hat.client, hpending, hn⟩

/-- The client is handed the trade. -/
theorem handed_end_to_end_btc : ∃ ls y,
    (publisherWiring (Publisher.topicQuiche List.length btcCommand) [fileName btcKey] true workingMq
      (pairsChannel .trade) btcKey False).Runs (Pipeline.init twoPairs)
      (Publisher.Server.init (List Bytes), []) ls y ∧
    Publisher.handed y.sink.2 (fileName btcKey) Publisher.sampleCid = [[1]] ∧
    (Publisher.handed y.sink.2 (fileName btcKey) Publisher.sampleCid).Sublist [[1]] ∧
    Publisher.published (Wiring.sinks ls) (fileName btcKey) ++ [] ++ [] = [[1]] := by
  obtain ⟨s, server, hruns, -, hpending, hn⟩ := btc_handed
  obtain ⟨hsub, hall⟩ := handed_end_to_end hruns Publisher.sampleCid
  have hdone := hall not_false workingMq_works hn
  rw [hpending] at hdone
  have hgot : Publisher.handed (Publisher.handLog (fileName btcKey) [1]) (fileName btcKey)
    Publisher.sampleCid = [[1]] := by decide
  exact ⟨_, _, hruns, hgot, hsub, hdone⟩

/-- **What the program of a client passes on.** In every run of the integration server and a
publisher server, and every run of a client's program that gets chunks on one stream only: if
`writable` lists no stream twice, each write to the client's stream was accepted whole and the
transport has brought a beginning of the stream, what the program passes on is a beginning of the
stream's messages; these interleave, for each topic, published messages in their order, each at
most once, and error replies; and for the topic of a channel they are records of the messages
that the crawler has sent, in their order and each at most once. -/
theorem received_end_to_end {ls : List (WireLabel (PipeLabel x) Publisher.Label Unit)}
    {y : Wired (Pipeline x) Bytes (Publisher.Server Conn × List Publisher.DistEvent) Unit}
    {cid : Publisher.ConnectionId} {c : Publisher.Client Conn} {stream : Publisher.StreamId} {ConnC : Type}
    {qc : Publisher.ClientQuiche ConnC} {names : List String} {conn : ConnC}
    {ks : List Publisher.ReceiverLabel} {r : Publisher.Receiver ConnC}
    (hwritable : ∀ conn, (q.writable conn).Nodup)
    (h : (publisherWiring q ipcs rt mq ch key loses).Runs (Pipeline.init x) (Publisher.Server.init Conn, []) ls y)
    (hc : y.sink.1.clientList.lookup cid = some c)
    (hwhole : ∀ w ∈ c.writes, w.stream = stream → w.answer = .ok w.data.length)
    (hclient : Run (Publisher.ReceiverStep qc names) (Publisher.Receiver.init conn) ks r)
    (hone : Publisher.SingleStream ks stream)
    (htransport : (Publisher.pieces ks stream).flatten <+: c.accepted stream) :
    r.tx.flatten <+: (c.sentOn stream).flatten ∧
    ∃ sent : Option String → List Bytes, Interleaves (c.sentOn stream) sent ∧
      (∀ topic, (sent (some topic)).Sublist (Publisher.published (Wiring.sinks ls) topic)) ∧
      (sent (some (fileName key))).Sublist (owed ch (accepted (Wiring.sources ls)) key) ∧
      ∀ data ∈ sent none, Publisher.IsReply data := by
  have hserver : Publisher.DistRuns q ipcs rt (Wiring.sinks ls) y.sink.1 y.sink.2 := Wiring.sink_run h
  obtain ⟨sent, hil, htopics, hreplies⟩ := Publisher.carries_run hwritable hserver cid c hc stream
  have hpublished : ∀ topic, (sent (some topic)).Sublist (Publisher.published (Wiring.sinks ls) topic) :=
    fun topic => (htopics topic).trans ((Publisher.ordered_run hserver topic).handed cid)
  refine ⟨?_, sent, hil, hpublished, (hpublished _).trans (published_owed h), hreplies⟩
  rw [Publisher.tx_run hclient hone, ← Publisher.accepted_eq_flatten hwhole]
  exact htransport

/-- A client's program that reads the stream of the sample client. -/
def streamQuiche : Publisher.ClientQuiche (List Bytes) :=
  { Publisher.pieceQuiche with readable := fun _ => [0] }

/-- The program gets a message in one piece. -/
theorem stream_run (data : Bytes) : ∃ r, Run (Publisher.ReceiverStep streamQuiche [btcKey])
    (Publisher.Receiver.init [data]) [.events, .wouldBlock, .chunk 0 data] r ∧ r.tx = [data] := by
  have h₁ : Publisher.ReceiverStep streamQuiche [btcKey] (Publisher.Receiver.init [data]) .events _ :=
    .events rfl
  have h₂ : Publisher.ReceiverStep streamQuiche [btcKey]
      { Publisher.Receiver.init [data] with pc := .receiving } .wouldBlock
      ⟨[data], true, [], .reading [0]⟩ := .wouldBlock rfl
  have h₃ : Publisher.ReceiverStep streamQuiche [btcKey] ⟨[data], true, [], .reading [0]⟩
      (.chunk 0 data) _ := .chunk rfl rfl
  exact ⟨_, Run.cons h₁ (Run.cons h₂ (Run.single h₃)), rfl⟩

/-- The trade reaches the program of the client. -/
theorem received_end_to_end_btc : ∃ ls y c r,
    (publisherWiring (Publisher.topicQuiche List.length btcCommand) [fileName btcKey] true workingMq
      (pairsChannel .trade) btcKey False).Runs (Pipeline.init twoPairs)
      (Publisher.Server.init (List Bytes), []) ls y ∧
    y.sink.1.clientList.lookup Publisher.sampleCid = some c ∧
    Run (Publisher.ReceiverStep streamQuiche [btcKey]) (Publisher.Receiver.init [[1]])
      [.events, .wouldBlock, .chunk 0 [1]] r ∧
    r.tx = [[1]] ∧ r.tx.flatten <+: (c.sentOn 0).flatten ∧
    ∃ sent : Option String → List Bytes, Interleaves [[1]] sent ∧
      (sent (some (fileName btcKey))).Sublist [[1]] := by
  obtain ⟨s, server, hruns, hlookup, -, -⟩ := btc_handed
  obtain ⟨r, hclient, htx⟩ := stream_run [1]
  have hwritable : ∀ conn, ((Publisher.topicQuiche List.length btcCommand).writable conn).Nodup := fun _ =>
    List.nodup_singleton 0
  have hone : Publisher.SingleStream [.events, .wouldBlock, .chunk 0 [1]] 0 := by
    intro stream chunk hm
    simp at hm
    exact hm.1
  obtain ⟨hbegin, sent, hil, -, hsub, -⟩ := received_end_to_end hwritable hruns hlookup (fun w hw _ => by
    rw [List.mem_singleton.1 hw]
    rfl) hclient hone (by decide)
  exact ⟨_, _, _, r, hruns, hlookup, hclient, htx, hbegin, sent, hil, hsub⟩

/-! ## The replay server -/

/-- The integration server and a replay server; the tasks that `listens` names have their
subscribers on the channel of the key. -/
def replayWiring (crates : Replay.Crates) (parse : Replay.Parse) (listens : ℕ → Bool) (mq : Mq)
    (ch : Channel x) (key : String) (loses : Prop) : Wiring (Pipeline x) (PipeLabel x) Bytes
      (Replay.Feeds × List Replay.NetEvent) Replay.FeedLabel ℕ :=
  subscribed mq ch key (Logged (Replay.FeedStep crates parse) Replay.feedEvents)
    (fun
      | .receive n data => if listens n then some (n, data) else none
      | _ => none) loses

variable {crates : Replay.Crates} {parse : Replay.Parse}
  {o : Replay.Orders} {content : Option String} {h₀ : Replay.DynamicConfigHandler}
  {arg : Replay.MarketDataArg} {name : String}

/-- What a task receives is what it took from its queue. -/
theorem received_eq_got {n : ℕ} (hn : listens n = true)
    (ls : List (WireLabel (PipeLabel x) Replay.FeedLabel ℕ)) :
    Replay.received (Wiring.sinks ls) n = (replayWiring crates parse listens mq ch key loses).got ls n := by
  refine (Wiring.got_eq_filterMap _ fun l => ?_).symm
  cases l with
  | receive m data =>
    by_cases hm : m = n
    · subst hm
      simp [Wiring.taken, replayWiring, subscribed, hn]
    · by_cases hlisten : listens m = true <;>
        simp [Wiring.taken, replayWiring, subscribed, hm, hlisten]
  | _ => rfl

/-- A market message with this name. -/
def named (name : String) : Replay.HubMsg → Bool
  | .data symbol _ _ => symbol = name
  | .action _ => false

/-- What one task sent under its name, when the others send under other names. -/
theorem named_sends {n : ℕ} (sends : List (ℕ × Replay.MarketDataArg × Bytes))
    (htask : ∀ p ∈ sends, p.2.1.toString = arg.toString ↔ p.1 = n) (harg : ∀ p ∈ sends, p.1 = n → p.2.1 = arg) :
    (sends.map Replay.feedMsg).filter (named arg.toString) =
      ((tagged n sends).map Prod.snd).map (.data arg.toString arg.msgType) := by
  induction sends with
  | nil => rfl
  | cons p sends ih =>
    have hrest := ih (fun p' hp => htask p' (List.mem_cons_of_mem _ hp))
      fun p' hp => harg p' (List.mem_cons_of_mem _ hp)
    have hthis := htask p List.mem_cons_self
    rw [List.map_cons, List.filter_cons]
    by_cases hp : p.1 = n
    · have hname : p.2.1 = arg := harg p List.mem_cons_self hp
      have hn : named arg.toString (Replay.feedMsg p) = true := by simp [named, Replay.feedMsg, hname]
      rw [if_pos hn, hrest]
      simp [tagged, hp, Replay.feedMsg, hname]
    · have hn : named arg.toString (Replay.feedMsg p) = false := by
        simpa [named, Replay.feedMsg] using mt hthis.1 hp
      rw [hn, if_neg (by simp), hrest]
      simp [tagged, hp]

variable {ls : List (WireLabel (PipeLabel x) Replay.FeedLabel ℕ)}
  {y : Wired (Pipeline x) Bytes (Replay.Feeds × List Replay.NetEvent) ℕ}

/-- What a task has sent are records of the channel. -/
theorem sent_owed (hnew : Replay.DynamicConfigHandler.new parse o content = some h₀)
    (h : (replayWiring crates parse listens mq ch key loses).Runs (Pipeline.init x)
      (Replay.Feeds.start h₀, []) ls y) {n : ℕ} (hn : listens n = true) :
    (Replay.sent (Wiring.sinks ls) n).Sublist (owed ch (accepted (Wiring.sources ls)) key) := by
  have hgot : Replay.received (Wiring.sinks ls) n =
      (replayWiring crates parse listens mq ch key loses).got ls n := received_eq_got hn ls
  obtain ⟨_, -, hok⟩ := Replay.feedsOK_new hnew (Run.of_logged (Wiring.sink_run h))
  obtain ⟨missed, hreceived, -⟩ := hok.books n
  have hsent : Replay.sent (Wiring.sinks ls) n <+: Replay.received (Wiring.sinks ls) n := by
    rw [hreceived, List.append_assoc]
    exact List.prefix_append _ _
  rw [hgot] at hsent
  exact hsent.sublist.trans ((List.sublist_append_left _ _).trans (got_owed h n))

/-- **What a client of the replay server is sent.** In every run of the integration server and a
replay server: what a task sends whose subscriber is on a channel are records of the messages
that the crawler has sent, in their order and each at most once. The client of a session gets what
the hub, the session's task and its history tasks had for it and the answers to its binary frames
(`Served`). And if every configuration that is read lists an entry with the name of the channel,
and no other one with this name, the market messages with this name that the hub gives to the
session, in between the replies and the rest of the market, are such records in this order, each at
most once. -/
theorem sent_end_to_end (hnew : Replay.DynamicConfigHandler.new parse o content = some h₀)
    (h : (replayWiring crates parse listens mq ch key loses).Runs (Pipeline.init x)
      (Replay.Feeds.start h₀, []) ls y)
    (hlistens : ∀ n arg, y.sink.1.argOf n = some arg → arg.toString = fileName key → listens n = true)
    (hname : arg.toString = fileName key)
    (hlist : ∀ first, content.bind parse = some first →
      ∀ c ∈ Replay.configs parse first (Wiring.sinks ls),
        arg ∈ c ∧ ∀ arg' ∈ c, arg'.toString = arg.toString → arg' = arg) (i : ℕ) :
    (∀ n, listens n = true →
      (Replay.sent (Wiring.sinks ls) n).Sublist (owed ch (accepted (Wiring.sources ls)) key)) ∧
    (∃ hub own, Replay.Served crates (Replay.netLabels (Wiring.sinks ls)) y.sink.2 y.sink.1.net i hub own
      (Replay.historyMsgs (Replay.netLabels (Wiring.sinks ls)) i)) ∧
    (Replay.givens crates (Replay.processed y.sink.2) i).map (Replay.Given.text crates) =
      Replay.outputs crates (Replay.processed y.sink.2) i ∧
    (((Replay.givens crates (Replay.processed y.sink.2) i).filterMap Replay.Given.market).filter
      (named (fileName key))).Sublist
        ((owed ch (accepted (Wiring.sources ls)) key).map (.data (fileName key) arg.msgType)) := by
  obtain ⟨⟨s, log⟩, hsink⟩ : ∃ t, y.sink = t := ⟨_, rfl⟩
  have hruns : Replay.FeedRuns crates parse h₀ (Wiring.sinks ls) log s := by
    have hrun := Wiring.sink_run h
    rw [hsink] at hrun
    exact hrun
  rw [hsink] at hlistens ⊢
  refine ⟨fun n => sent_owed hnew h, ⟨_, _, Replay.served_run (Replay.net_run hruns) i⟩,
    (Replay.givenOK_givens crates _ i).text, ?_⟩
  obtain ⟨n, harg, htask, hsame⟩ := Replay.name_task hnew (Run.of_logged hruns) hlist
  have hnamed := named_sends _ htask hsame
  rw [← hname]
  refine ((Replay.market_givens hruns i).filter _).trans ?_
  rw [hnamed]
  exact (sent_owed hnew h (hlistens n arg harg hname)).map _

/-- Of the two trades of the pair the second gets to the client. -/
theorem sent_end_to_end_btc : ∃ h₀ ls y,
    (replayWiring Replay.tradeCrates Replay.oneEntry (fun _ => true) workingMq (pairsChannel .trade) btcKey
      False).Runs (Pipeline.init twoPairs) (Replay.Feeds.start h₀, []) ls y ∧
    (∀ n, (Replay.sent (Wiring.sinks ls) n).Sublist [[1], [1]]) ∧
    Replay.frames y.sink.2 1 =
      [Replay.success, Replay.binaryError, Replay.tradeCrates.marketMessage "trade" [1]] ∧
    (∃ hub own, Interleaves (Replay.frames y.sink.2 1) (Replay.bySource hub own [] [Replay.binaryError]) ∧
      hub = [Replay.success, Replay.tradeCrates.marketMessage "trade" [1]]) ∧
    ([.data btcKey "trade" [1]] : List Replay.HubMsg).Sublist
      [.data btcKey "trade" [1], .data btcKey "trade" [1]] := by
  obtain ⟨s, hrun, hwritten⟩ := btc_twice
  obtain ⟨h₀, n, feeds, hnew, -, hfeeds, hnet⟩ := Replay.feed_logged [1]
  set W := replayWiring Replay.tradeCrates Replay.oneEntry (fun _ => true) workingMq (pairsChannel .trade)
    btcKey False with hW
  have hsink : Run W.consume (Replay.Feeds.start h₀, []) (Replay.feedLabels n [1])
    (feeds, Replay.clientLog [1]) := hfeeds
  have hfit : ∀ m, (Replay.feedLabels n [1]).flatMap (W.taken m) ++ (if n = m then [] else [[1], [1]]) =
      W.output s := by
    intro m
    rw [show W.output s = [[1], [1]] from hwritten]
    by_cases hm : n = m <;>
      simp [Replay.feedLabels, Replay.subscribeLabels, Replay.tradeLabels, Wiring.taken, hW, replayWiring,
        subscribed, hm]
  have hruns := Wiring.runs_of (show W.output (Pipeline.init twoPairs) = [] from rfl) hrun hsink
    (fun m => if n = m then [] else [[1], [1]]) hfit
  have hlist : ∀ first, (some "").bind Replay.oneEntry = some first →
      ∀ c ∈ Replay.configs Replay.oneEntry first (Replay.feedLabels n [1]),
        Replay.btcTrade ∈ c ∧ ∀ arg' ∈ c, arg'.toString = Replay.btcTrade.toString → arg' = Replay.btcTrade := by
    intro first hfirst c hc
    simp [Replay.configs_feedLabels hfirst hc]
  obtain ⟨hsent, ⟨hub, own, hserved⟩, htext, hmarket⟩ := sent_end_to_end hnew hruns (fun _ _ _ _ => rfl)
    (show Replay.btcTrade.toString = fileName btcKey by decide) hlist 1
  have hone : Replay.Served Replay.tradeCrates (Replay.netLabels (Replay.feedLabels n [1])) (Replay.clientLog [1])
    feeds.net 1 hub own (Replay.historyMsgs (Replay.netLabels (Replay.feedLabels n [1])) 1) := hserved
  rw [hnet] at hone
  have hil := hone.order
  rw [Replay.clientNet_session] at hil
  have hgot : Replay.frames (Replay.clientLog [1]) 1 ++ [] ++ [] = Replay.frames (Replay.clientLog [1]) 1 := by
    rw [List.append_nil, List.append_nil]
  have hall : hub ++ [] ++ [] = [Replay.success, Replay.tradeCrates.marketMessage "trade" [1]] :=
    hone.hub.trans htext.symm
  rw [List.append_nil, List.append_nil] at hall
  exact ⟨h₀, _, _, hruns, fun m => hsent m rfl, rfl, ⟨hub, own, hgot ▸ hil, hall⟩, hmarket⟩

end CryptoMarket.System
