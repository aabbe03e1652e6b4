import CryptoMarket.Replay.Types

/-!
# Replay server: a client session

`handle_socket.rs`. `jsonHandle` is `json_handle` as the list of the sends and spawns
it makes, in order, and whether it returns `Ok`. `historyHandle` is the task a
`history` command spawns: it opens recorded days one by one and sends their records;
its loop runs on a fuel. The session is taken to be open while the task sends.
-/

namespace CryptoMarket.Replay

/-- What a session's task does in `json_handle`. -/
inductive Op where
  /-- `sender.send((my_id, action)).await` -/
  | send (a : ChannelAction)
  /-- `tx_json.send(msg).await`, into the session's own JSON channel -/
  | reply (msg : String)
  /-- `tokio::task::spawn(history_handle(start, end, tx_json, args))` -/
  | spawn (start stop : ℤ) (args : List MarketDataArg)

/-- The answer to a binary frame. -/
def binaryError : String := "\x7b\"msg\":\"Binary data is not accepted\"\x7d"

/-- `json_handle`: what it does and whether it returns `Ok`. -/
def jsonHandle (x : Crates) (json : String) (myId : ℕ) : List Op × Bool :=
  match x.fromStr json with
  | none => ([], false)
  | some params =>
    let action := split '@' params.action
    match action.headD "" with
    | "subscribe" => (params.args.map fun arg => .send (.subscribe myId arg.toString), true)
    | "unsubscribe" =>
      if params.args.length = 0 then ([.send (.unsubscribe myId none)], true)
      else (params.args.map fun arg => .send (.unsubscribe myId (some arg.toString)), true)
    | "history" =>
      let timeRange := split '-' (action.tail.headD "0-0")
      let start := timeRange.headD "0"
      let stop := timeRange.tail.headD start
      match parseI64 start, parseI64 stop with
      | some start, some stop =>
        let error := if 0 ≤ stop ∧ start < stop then
          [.reply (x.toText [("code", .number 500), ("msg", .text "history time range error")])]
          else []
        (error ++ [.spawn start stop params.args], true)
      | _, _ => ([], false)
    | _ => ([.reply (x.toText [("code", .number 5001), ("msg", .text "action subscribe or unsubscribe")])], true)

/-! ## The history task -/

/-- What the history task does that others see. -/
inductive HistoryEvent where
  /-- `FileReader::new(symbol, i)` -/
  | opens (symbol : String) (day : ℤ)
  /-- `tx_json.send(json).await` -/
  | send (msg : String)
  deriving DecidableEq, Repr

/-- How far the history task has come. -/
inductive Outcome where
  | done
  | panicked
  /-- The fuel ran out first. -/
  | running
  deriving DecidableEq, Repr

/-- `i += 1` on `i64`: past the largest value it panics where overflow checks are on and
wraps around where they are off. -/
def incr (checks : Bool) (i : ℤ) : Option ℤ :=
  if i < i64Max then some (i + 1) else if checks then none else some i64Min

/-- Opening a day and sending its records. -/
def dayEvents (x : Crates) (arg : MarketDataArg) (i : ℤ) (read : List Bytes) : List HistoryEvent :=
  .opens arg.toString i :: read.map fun data => .send (x.marketMessage arg.msgType data)

/-- The `while` loop of `history_handle` for one argument, from day `i`. -/
def historyDays (x : Crates) (checks : Bool) (arg : MarketDataArg) (stop : ℤ) :
    ℕ → ℤ → List HistoryEvent × Outcome
  | 0, _ => ([], .running)
  | fuel + 1, i =>
    if stop ≤ i then
      match x.fileReader arg.toString i with
      | none =>
        ([.opens arg.toString i, .send (x.toText [("code", .number 5002),
          ("msg", .text (arg.toString ++ " not " ++ toString i ++ " day history"))])], .done)
      | some read =>
        match incr checks i with
        | none => (dayEvents x arg i read, .panicked)
        | some i' =>
          let rest := historyDays x checks arg stop fuel i'
          (dayEvents x arg i read ++ rest.1, rest.2)
    else ([], .done)

/-- `history_handle`: the arguments one after the other. -/
def historyHandle (x : Crates) (checks : Bool) (fuel : ℕ) (start stop : ℤ) :
    List MarketDataArg → List HistoryEvent × Outcome
  | [] => ([], .done)
  | arg :: args =>
    let days := historyDays x checks arg stop fuel start
    match days.2 with
    | .done =>
      let rest := historyHandle x checks fuel start stop args
      (days.1 ++ rest.1, rest.2)
    | out => (days.1, out)

end CryptoMarket.Replay
