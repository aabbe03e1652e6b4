import CryptoMarket.Replay.Types

/-!
# Replay server: the hub

`msg_sub_handle` and its handlers (`lib.rs`). The hub owns two maps and takes one
message at a time: an action of a session or a market message of a topic. A handler
gives the maps afterwards and what it sends: `actionHandle` at most one reply,
`dataHander` one message for each session of the topic, in no particular order.
-/

namespace CryptoMarket.Replay

/-- The two maps of `msg_sub_handle`. -/
structure Hub where
  /-- The users: channel and subscribed symbols. -/
  userList : HashMap ℕ (TxJSON × HashSet String)
  /-- The sessions to push a topic's data to. -/
  subList : HashMap String (HashMap ℕ TxJSON)
  deriving DecidableEq

/-- Both maps empty. -/
def Hub.init : Hub := ⟨∅, ∅⟩

/-- What `action_handle` replies on success. -/
def success : String := "\x7b\"state\": \"success\",\"code\": 200,\"message\": \"\"\x7d"

/-- What `action_handle` replies on failure. -/
def failure : String := "\x7b\"state\": \"failure\",\"code\": 500,\"message\": \"server error\"\x7d"

/-- The second half of `action_handle_subscribe`: `sub_list.get_mut(symbol)?` and the
insertion of the session. -/
def Hub.joinTopic (h : Hub) (id : ℕ) (symbol : String) (txJson : TxJSON) : Option Unit × Hub :=
  match h.subList.lookup symbol with
  | none => (none, h)
  | some userSession =>
    (some (), { h with subList := h.subList.insert symbol (userSession.insert id txJson) })

/-- `action_handle_subscribe` -/
def actionHandleSubscribe (id : ℕ) (symbol : String) (txJson : TxJSON) (h : Hub) :
    Option Unit × Hub :=
  match h.userList.lookup id with
  | some (tx, userInfo) =>
    if symbol ∉ userInfo then (none, h)
    else { h with userList := h.userList.insert id (tx, insert symbol userInfo) }.joinTopic id symbol txJson
  | none =>
    { h with userList := h.userList.insert id (txJson, {symbol}) }.joinTopic id symbol txJson

/-- `action_handle_unsubscribe`: a named topic is removed from `sub_list`; without a
name, every topic of the user is, and then the user. -/
def actionHandleUnsubscribe (id : ℕ) (signalName : Option String) (h : Hub) : Option Unit × Hub :=
  match signalName with
  | some signalName =>
    if signalName ∈ h.subList then (some (), { h with subList := h.subList.erase signalName })
    else (none, h)
  | none =>
    match h.userList.lookup id with
    | none => (none, h)
    | some (_, symbols) =>
      (some (), ⟨h.userList.erase id, HashMap.removeAll symbols h.subList⟩)

/-- `action_handle`: the maps afterwards and the reply, which goes to the channel
`user_list` holds for the session now, if any. -/
def actionHandle (id : ℕ) (action : SocketAction) (h : Hub) : Hub × Option (TxJSON × String) :=
  let (state, h') := match action with
    | .subscribe signalName txJson => actionHandleSubscribe id signalName txJson h
    | .unsubscribe signalName => actionHandleUnsubscribe id signalName h
  (h', (h'.userList.lookup id).map fun u => (u.1, if state.isSome then success else failure))

/-- `data_hander`: the maps afterwards and the messages sent. A topic nobody has named
yet is created. -/
def dataHander (x : Crates) (symbol msgType : String) (data : Bytes) (h : Hub) :
    Hub × Multiset (TxJSON × String) :=
  match h.subList.lookup symbol with
  | some sessionList =>
    (h, sessionList.entries.map fun e => (e.2, x.marketMessage msgType data))
  | none => ({ h with subList := h.subList.insert symbol ∅ }, 0)

/-- A message the hub takes from one of its two queues. -/
inductive HubMsg where
  | action (a : ChannelAction)
  | data (symbol msgType : String) (data : Bytes)

/-- The hub after one message. -/
def Hub.step (x : Crates) (h : Hub) : HubMsg → Hub
  | .action a => (actionHandle a.id a.action h).1
  | .data symbol msgType data => (dataHander x symbol msgType data h).1

/-- The hub after a run from empty maps. -/
def Hub.run (x : Crates) (ms : List HubMsg) : Hub := ms.foldl (Hub.step x) Hub.init

@[simp] theorem Hub.run_snoc (x : Crates) (ms : List HubMsg) (m : HubMsg) :
    Hub.run x (ms ++ [m]) = (Hub.run x ms).step x m := by
  simp [Hub.run, List.foldl_append]

end CryptoMarket.Replay
