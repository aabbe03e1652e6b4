import CryptoMarket.Lib.Maps
import CryptoMarket.Lib.Text

/-!
# Replay server: the shared types

`parameter_type.rs`, and the functions of other crates the server calls (`Crates`):
the JSON and base64 coders and the reader of recorded days are not in the repository
and stay parameters.

A JSON channel is created by one session's `handle_socket` and named by that session
(`TxJSON.session`): `ChannelAction` is an action together with the fact that a
subscription carries the channel of the session that sends it, which is how
`json_handle` builds it.
-/

namespace CryptoMarket.Replay

/-- The sending side of the JSON channel of a session. -/
structure TxJSON where
  session : ℕ
  deriving DecidableEq, Repr

/-- An action a session sends to the hub. -/
inductive SocketAction where
  | subscribe (signalName : String) (txJson : TxJSON)
  | unsubscribe (signalName : Option String)
  deriving DecidableEq, Repr

/-- An item of the action channel: the session id and its action. -/
structure ChannelAction where
  id : ℕ
  action : SocketAction
  /-- A session subscribes with its own channel. -/
  own : ∀ s tx, action = .subscribe s tx → tx = ⟨id⟩

/-- `(id, Subscribe(symbol, tx_json))`. -/
def ChannelAction.subscribe (id : ℕ) (symbol : String) : ChannelAction :=
  ⟨id, .subscribe symbol ⟨id⟩, fun _ _ h => by simp_all⟩

/-- `(id, Unsubscribe(signal_name))`. -/
def ChannelAction.unsubscribe (id : ℕ) (signalName : Option String) : ChannelAction :=
  ⟨id, .unsubscribe signalName, fun _ _ h => by simp_all⟩

/-- The market data a client asks for. -/
structure MarketDataArg where
  exchange : String
  marketType : String
  symbol : String
  msgType : String
  deriving DecidableEq, Repr

/-- `MarketDataArg::to_string`: the name of the topic, with what follows the first `@`
of the message type as the period. -/
def MarketDataArg.toString (m : MarketDataArg) : String :=
  let msgType := split '@' m.msgType
  let msgName := msgType.headD m.msgType
  let msgPeriod := match msgType.tail with
    | period :: _ => "_" ++ period
    | [] => ""
  m.exchange ++ "_" ++ m.marketType ++ "_" ++ msgName ++ "_" ++ m.symbol ++ msgPeriod

/-- The trades of one pair. -/
def btcTrade : MarketDataArg := ⟨"binance", "spot", "BTCUSDT", "trade"⟩

example : btcTrade.toString = "binance_spot_trade_BTCUSDT" := by decide

/-- A command of a client. -/
structure Action where
  action : String
  args : List MarketDataArg

/-- The values in the objects the server builds with `json!`. -/
inductive JsonValue where
  | text (s : String)
  | number (n : ℤ)
  deriving DecidableEq, Repr

/-- A flat JSON object. -/
abbrev JsonObject := List (String × JsonValue)

/-- A flat JSON object as a text, if its own texts need no escapes. -/
def flatJson (o : JsonObject) : String :=
  "\x7b" ++ ",".intercalate (o.map fun (key, value) =>
    "\"" ++ key ++ "\":" ++ match value with
      | .text s => "\"" ++ s ++ "\""
      | .number n => toString n) ++ "\x7d"

example : flatJson [("code", .number 5001), ("msg", .text "no")] =
    "\x7b\"code\":5001,\"msg\":\"no\"\x7d" := by decide

/-- What the server calls in other crates. -/
structure Crates where
  /-- `serde_json::Value::to_string` -/
  toText : JsonObject → String
  /-- `serde_json::from_str::<Action>` -/
  fromStr : String → Option Action
  /-- `base64::encode` -/
  base64 : Bytes → String
  /-- `FileReader::new(name, day)`: the records of the day, if there is a file. -/
  fileReader : String → ℤ → Option (List Bytes)

/-- A market message as it is sent to a client. -/
def Crates.marketMessage (x : Crates) (msgType : String) (data : Bytes) : String :=
  x.toText [("messageType", .text msgType), ("payload", .text (x.base64 data))]

end CryptoMarket.Replay
