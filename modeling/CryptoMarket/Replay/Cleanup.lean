import CryptoMarket.Replay.HandleSocket
import CryptoMarket.Replay.Subscriptions

/-!
# Replay server: how a session ends

`handle_socket`: a select loop over the session's JSON channel and the socket. Each exit
from the loop leads to the last send, `Unsubscribe(None)`; the answer to a binary frame is
unwrapped, and a panic skips it.

The hub's action channel is open, and so is the session's own JSON channel, one sender of
which the task itself holds.

* `handleSocket_append`: the task passes over the events that keep it in the loop.
* `cleanup_iff`: a session that ends has unsubscribed last exactly when it did not panic, or
  had unsubscribed from everything just before.
-/

namespace CryptoMarket.Replay

/-- What the select loop takes up, with the outcome of the `socket.send` it leads to. -/
inductive SocketEvent where
  /-- An item of the JSON channel. -/
  | json (msg : String) (sent : Bool)
  | text (json : String)
  | ping
  | pong
  | close
  | binary (sent : Bool)
  | receiveError
  /-- `socket.recv` gives `None`: the branch is disabled until the next item. -/
  | exhausted
  deriving DecidableEq, Repr

/-- What the task does: an operation of `json_handle`, or a frame for the client. -/
inductive Effect where
  | op (op : Op)
  | frame (text : String)

/-- How the loop goes on after an event. -/
inductive Flow where
  | next
  | leave
  | panic
  deriving DecidableEq, Repr

/-- How far the task has come. -/
inductive Exit where
  /-- In the loop. -/
  | waiting
  | ended
  | panicked
  deriving DecidableEq, Repr

variable (x : Crates) (myId : ℕ)

/-- One round of the loop. -/
def onEvent : SocketEvent → List Effect × Flow
  | .json msg sent => ([.frame msg], if sent then .next else .leave)
  | .text json =>
    let (ops, ok) := jsonHandle x json myId
    (ops.map .op, if ok then .next else .leave)
  | .ping | .pong | .exhausted => ([], .next)
  | .close | .receiveError => ([], .leave)
  | .binary sent => ([.frame binaryError], if sent then .next else .panic)

/-- `handle_socket`: what it does on a sequence of events, and how far it comes. -/
def handleSocket : List SocketEvent → List Effect × Exit
  | [] => ([], .waiting)
  | event :: events =>
    match onEvent x myId event with
    | (effects, .next) =>
      let (rest, exit) := handleSocket events
      (effects ++ rest, exit)
    | (effects, .leave) => (effects ++ [.op (.send (.unsubscribe myId none))], .ended)
    | (effects, .panic) => (effects, .panicked)

/-- The actions for the hub. -/
def sentActions (effects : List Effect) : List ChannelAction :=
  effects.filterMap fun
    | .op (.send a) => some a
    | _ => none

/-- The event keeps the task in its loop. -/
def Stays (event : SocketEvent) : Prop := (onEvent x myId event).2 = .next

/-- The actions that a sequence of events leads to, as long as it keeps the task in its
loop. -/
def loopActions (events : List SocketEvent) : List ChannelAction :=
  events.flatMap fun event => sentActions (onEvent x myId event).1

variable {x myId} {events : List SocketEvent} {event : SocketEvent}

theorem sentActions_append (a b : List Effect) : sentActions (a ++ b) = sentActions a ++ sentActions b :=
  List.filterMap_append

theorem handleSocket_next (h : (onEvent x myId event).2 = .next) :
    handleSocket x myId (event :: events) =
      ((onEvent x myId event).1 ++ (handleSocket x myId events).1, (handleSocket x myId events).2) := by
  have hpair : onEvent x myId event = ((onEvent x myId event).1, .next) := by rw [← h]
  rw [handleSocket, hpair]

theorem handleSocket_leave (h : (onEvent x myId event).2 = .leave) :
    handleSocket x myId (event :: events) =
      ((onEvent x myId event).1 ++ [.op (.send (.unsubscribe myId none))], .ended) := by
  have hpair : onEvent x myId event = ((onEvent x myId event).1, .leave) := by rw [← h]
  rw [handleSocket, hpair]

/-- **Events that keep the task in its loop** are passed over. -/
theorem handleSocket_append (rest : List SocketEvent) : ∀ (events : List SocketEvent),
    (∀ event ∈ events, Stays x myId event) →
    sentActions (handleSocket x myId (events ++ rest)).1 =
        loopActions x myId events ++ sentActions (handleSocket x myId rest).1 ∧
      (handleSocket x myId (events ++ rest)).2 = (handleSocket x myId rest).2 := by
  intro events
  induction events with
  | nil => intro _; exact ⟨rfl, rfl⟩
  | cons event events ih =>
    intro h
    obtain ⟨hactions, hexit⟩ := ih fun e he => h e (List.mem_cons_of_mem _ he)
    have hstays : (onEvent x myId event).2 = .next := h event List.mem_cons_self
    rw [List.cons_append, handleSocket_next hstays]
    refine ⟨?_, hexit⟩
    rw [sentActions_append, hactions, ← List.append_assoc]
    rfl

/-- A sequence of events keeps the task in its loop, or has a first one that does not. -/
theorem exists_first_exit (x : Crates) (myId : ℕ) : ∀ (events : List SocketEvent),
    (∀ event ∈ events, Stays x myId event) ∨
      ∃ before event after, events = before ++ event :: after ∧ (∀ e ∈ before, Stays x myId e) ∧
        ¬ Stays x myId event := by
  intro events
  induction events with
  | nil => exact Or.inl (List.forall_mem_nil _)
  | cons event events ih =>
    by_cases hs : Stays x myId event
    · rcases ih with hall | ⟨before, e, after, rfl, hbefore, he⟩
      · exact Or.inl (List.forall_mem_cons.2 ⟨hs, hall⟩)
      · exact Or.inr ⟨event :: before, e, after, rfl, List.forall_mem_cons.2 ⟨hs, hbefore⟩, he⟩
    · exact Or.inr ⟨[], event, events, rfl, List.forall_mem_nil _, hs⟩

/-- Only a binary frame whose answer cannot be sent makes the task panic. -/
theorem flow_panic_iff : (onEvent x myId event).2 = .panic ↔ event = .binary false := by
  cases event with
  | json msg sent => cases sent <;> simp [onEvent]
  | text json => cases hok : (jsonHandle x json myId).2 <;> simp [onEvent, hok]
  | binary sent => cases sent <;> simp [onEvent]
  | _ => simp [onEvent]

/-- **Cleanup.** A session that ends, by leaving its loop or by a panic, has sent
`Unsubscribe(None)` last, if and only if no binary frame whose answer cannot be sent reaches
it in its loop, or one that does finds `Unsubscribe(None)` as the last action sent. -/
theorem cleanup_iff (x : Crates) (myId : ℕ) (events : List SocketEvent) :
    ((handleSocket x myId events).2 ≠ .waiting →
      (sentActions (handleSocket x myId events).1).getLast? = some (.unsubscribe myId none)) ↔
    ∀ before after, events = before ++ .binary false :: after → (∀ e ∈ before, Stays x myId e) →
      (loopActions x myId before).getLast? = some (.unsubscribe myId none) := by
  -- what the task does from the event that ends it
  have hpanic : ∀ after, handleSocket x myId (.binary false :: after) =
      ([.frame binaryError], .panicked) := fun after => rfl
  constructor
  · rintro hclean before after rfl hbefore
    obtain ⟨hactions, hexit⟩ := handleSocket_append (.binary false :: after) before hbefore
    rw [hpanic] at hactions hexit
    rw [hactions, hexit] at hclean
    simpa [sentActions] using hclean (by simp)
  · intro hcond hend
    rcases exists_first_exit x myId events with
      hall | ⟨before, event, after, rfl, hbefore, hevent⟩
    · obtain ⟨-, hexit⟩ := handleSocket_append [] events hall
      rw [List.append_nil] at hexit
      exact absurd hexit hend
    · obtain ⟨hactions, -⟩ := handleSocket_append (event :: after) before hbefore
      rw [hactions]
      cases hflow : (onEvent x myId event).2 with
      | next => exact absurd hflow hevent
      | leave =>
        rw [handleSocket_leave hflow, sentActions_append, ← List.append_assoc]
        exact List.getLast?_concat
      | panic =>
        obtain rfl := flow_panic_iff.1 hflow
        have hlast := hcond before after rfl hbefore
        rw [hpanic]
        simpa [sentActions] using hlast

/-- The crates on runs in which every text subscribes to the trades of one pair. -/
def subscribing : Crates := { blankCrates with fromStr := fun _ => some ⟨"subscribe", [btcTrade]⟩ }

/-- **A binary frame from a client that is gone**: the subscription of the session stays. -/
theorem not_cleanup_binary :
    ¬ ∀ events, (handleSocket subscribing 1 events).2 ≠ .waiting →
      (sentActions (handleSocket subscribing 1 events).1).getLast? = some (.unsubscribe 1 none) := by
  intro hall
  have hlast := hall [.text "subscribe", .binary false] (by decide)
  have hsent : (sentActions (handleSocket subscribing 1 [.text "subscribe", .binary false]).1).getLast? =
      some (.subscribe 1 btcTrade.toString) := rfl
  rw [hsent] at hlast
  have haction := congrArg ChannelAction.action (Option.some.inj hlast)
  cases haction

end CryptoMarket.Replay
