import Mathlib.Logic.Function.Basic
import CryptoMarket.Lib.Run
import CryptoMarket.Replay.HandleSocket
import CryptoMarket.Replay.Hub

/-!
# Replay server: the hub and its sessions as communicating tasks

The tasks and the bounded queues between them: one action queue and one data queue into
the hub, one JSON queue into each session. A task that sends into a full queue waits
until the receiver has taken an item; here its step is not enabled until then.

A step is one `await` of one task: a session takes a text or pops a JSON item in its
select loop, does one operation of `json_handle`, or sends its last unsubscription; the
hub takes a message or does one send of the handler it is in. A history task, once
spawned, may send any message into the session's JSON queue.

The clients read: a `socket.send` does not wait. It fails in two steps only, `miss` and
`crash`. (A client that does not read would stop its session in `socket.send`, and then the hub
at a send to it, without a circular wait.)
-/

namespace CryptoMarket.Replay

/-- `channel(1024)` in `main`: the action queue. -/
def actionCap : ℕ := 1024

/-- `channel(1024)` in `msg_sub_handle`: the data queue. -/
def dataCap : ℕ := 1024

/-- `channel(100)` in `handle_socket`: the JSON queue of a session. -/
def jsonCap : ℕ := 100

/-- Where a session's task is. -/
inductive Phase where
  | absent
  /-- In the select loop. -/
  | select
  /-- In `json_handle`, with these operations left and this result at the end. -/
  | handling (ops : List Op) (ok : Bool)
  /-- After the loop, before the last `Unsubscribe(None)`. -/
  | closing
  | ended

/-- A session's task and its JSON queue. -/
structure Session where
  phase : Phase
  rxJson : List String
  /-- A history task of the session has been spawned. -/
  spawned : Bool

/-- The receiver of the session's JSON queue exists. -/
def Session.IsOpen (c : Session) : Prop := c.phase ≠ .absent ∧ c.phase ≠ .ended

/-- The hub, the queues and the sessions. -/
structure Net where
  hub : Hub
  /-- The sends left of the handler the hub is in. -/
  sending : List (TxJSON × String)
  actions : List ChannelAction
  data : List (String × String × Bytes)
  session : ℕ → Session

/-- Before the first connection. -/
def Net.init : Net := ⟨Hub.init, [], [], [], fun _ => ⟨.absent, [], false⟩⟩

/-- The net with session `i` in state `c`. -/
def Net.set (n : Net) (i : ℕ) (c : Session) : Net :=
  { n with session := Function.update n.session i c }

/-- The net with session `i` in phase `p`. -/
def Net.goto (n : Net) (i : ℕ) (p : Phase) : Net := n.set i { n.session i with phase := p }

/-- The net with one more item in the JSON queue of session `i`. -/
def Net.pushJson (n : Net) (i : ℕ) (msg : String) : Net :=
  n.set i { n.session i with rxJson := (n.session i).rxJson ++ [msg] }

/-- What a step is about. -/
inductive Label where
  | connect (i : ℕ)
  | text (i : ℕ) (json : String)
  | frame (i : ℕ)
  | binary (i : ℕ)
  | leave (i : ℕ)
  | crash (i : ℕ)
  | op (i : ℕ)
  | finish (i : ℕ)
  | bye (i : ℕ)
  | pop (i : ℕ)
  | miss (i : ℕ)
  | produce (symbol msgType : String) (data : Bytes)
  | takeAction
  | takeData (order : List (TxJSON × String))
  | push
  | history (i : ℕ) (msg : String)

/-- **The steps of the tasks.** -/
inductive Step (x : Crates) (n : Net) : Label → Net → Prop
  | connect {i} : (n.session i).phase = .absent → Step x n (.connect i) (n.goto i .select)
  /-- A text frame: `json_handle` starts. -/
  | text {i json} : (n.session i).phase = .select →
      Step x n (.text i json) (n.goto i (.handling (jsonHandle x json i).1 (jsonHandle x json i).2))
  /-- Ping or pong. -/
  | frame {i} : (n.session i).phase = .select → Step x n (.frame i) n
  /-- A binary frame: its answer goes to the client, past the JSON queue. -/
  | binary {i} : (n.session i).phase = .select → Step x n (.binary i) n
  /-- A close frame or a receive error. -/
  | leave {i} : (n.session i).phase = .select → Step x n (.leave i) (n.goto i .closing)
  /-- The answer to a binary frame cannot be sent: `unwrap` panics. -/
  | crash {i} : (n.session i).phase = .select → Step x n (.crash i) (n.goto i .ended)
  | sendAction {i a ops ok} : (n.session i).phase = .handling (.send a :: ops) ok →
      n.actions.length < actionCap →
      Step x n (.op i) { n.goto i (.handling ops ok) with actions := n.actions ++ [a] }
  | reply {i msg ops ok} : (n.session i).phase = .handling (.reply msg :: ops) ok →
      (n.session i).rxJson.length < jsonCap →
      Step x n (.op i) ((n.goto i (.handling ops ok)).pushJson i msg)
  | spawn {i start stop args ops ok} :
      (n.session i).phase = .handling (.spawn start stop args :: ops) ok →
      Step x n (.op i) (n.set i { n.session i with phase := .handling ops ok, spawned := true })
  | finish {i ok} : (n.session i).phase = .handling [] ok →
      Step x n (.finish i) (n.goto i (if ok then .select else .closing))
  /-- The last send of `handle_socket`. -/
  | bye {i} : (n.session i).phase = .closing → n.actions.length < actionCap →
      Step x n (.bye i) { n.goto i .ended with actions := n.actions ++ [.unsubscribe i none] }
  /-- A JSON item goes to the client. -/
  | pop {i msg q} : (n.session i).phase = .select → (n.session i).rxJson = msg :: q →
      Step x n (.pop i) (n.set i { n.session i with rxJson := q })
  /-- The `socket.send` of a JSON item fails: the item is gone and the loop ends. -/
  | miss {i msg q} : (n.session i).phase = .select → (n.session i).rxJson = msg :: q →
      Step x n (.miss i) (n.set i { n.session i with phase := .closing, rxJson := q })
  | produce {s mt d} : n.data.length < dataCap →
      Step x n (.produce s mt d) { n with data := n.data ++ [(s, mt, d)] }
  | takeAction {a rest} : n.sending = [] → n.actions = a :: rest →
      Step x n .takeAction { n with
        hub := (actionHandle a.id a.action n.hub).1
        sending := (actionHandle a.id a.action n.hub).2.toList
        actions := rest }
  | takeData {s mt d rest} {order : List (TxJSON × String)} : n.sending = [] → n.data = (s, mt, d) :: rest →
      (order : Multiset (TxJSON × String)) = (dataHander x s mt d n.hub).2 →
      Step x n (.takeData order) { n with
        hub := (dataHander x s mt d n.hub).1, sending := order, data := rest }
  | push {tx msg rest} : n.sending = (tx, msg) :: rest → (n.session tx.session).IsOpen →
      (n.session tx.session).rxJson.length < jsonCap →
      Step x n .push { n.pushJson tx.session msg with sending := rest }
  /-- The receiver is gone: the send fails and the error is ignored. -/
  | drop {tx msg rest} : n.sending = (tx, msg) :: rest → ¬ (n.session tx.session).IsOpen →
      Step x n .push { n with sending := rest }
  | history {i msg} : (n.session i).spawned = true → (n.session i).IsOpen →
      (n.session i).rxJson.length < jsonCap → Step x n (.history i msg) (n.pushJson i msg)

/-! ## Waiting -/

/-- The task of session `i` waits to send into its own JSON queue. -/
def Net.SelfBlocked (n : Net) (i : ℕ) : Prop :=
  (∃ msg ops ok, (n.session i).phase = .handling (.reply msg :: ops) ok) ∧
    jsonCap ≤ (n.session i).rxJson.length

/-- The hub waits to send into the JSON queue of session `i`. -/
def Net.HubBlocked (n : Net) (i : ℕ) : Prop :=
  (∃ msg rest, n.sending = (⟨i⟩, msg) :: rest) ∧ (n.session i).IsOpen ∧
    jsonCap ≤ (n.session i).rxJson.length

/-- The task of session `i` waits to send into the hub's action queue. -/
def Net.ActionBlocked (n : Net) (i : ℕ) : Prop :=
  ((∃ a ops ok, (n.session i).phase = .handling (.send a :: ops) ok) ∨
      (n.session i).phase = .closing) ∧
    actionCap ≤ n.actions.length

/-- Some task waits for itself, or the hub and a session wait for each other. -/
def Net.CircularWait (n : Net) : Prop :=
  (∃ i, n.SelfBlocked i) ∨ ∃ i, n.HubBlocked i ∧ n.ActionBlocked i

end CryptoMarket.Replay
