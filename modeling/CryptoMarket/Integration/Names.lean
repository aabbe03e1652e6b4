import CryptoMarket.Replay.Types

/-!
# Channel names

Three programs build the name of a market data channel from the same fields: the writer
of the integration server (`writers/mod.rs`), which publishes on it, the recorder
(`main.rs`) and the replay server (`MarketDataArg.toString`), which listen on it. Only
the writer replaces `/`, and only the replay server has the period behind an `@`.

* `names_agree_iff`: the three names are the same exactly when no field has a `/` and the
  period has no `@`.
-/

namespace CryptoMarket.Integration

/-- The key in `create_writer_thread`. -/
def channelKey (exchange marketType msgType symbol period : String) : String :=
  exchange ++ "_" ++ marketType ++ "_" ++ msgType ++ "_" ++ symbol ++
    (if period.utf8ByteSize = 0 then "" else "_") ++ period

/-- `file_name` in `create` -/
def fileName (name : String) : String := replacen '/' "-" 3 name

/-- The name that the recorder's `main` builds from its arguments. -/
def recorderIpc (exchange marketType msgType symbol : String) (period : Option String) : String :=
  let period := match period with
    | some period => "_" ++ period
    | none => ""
  exchange ++ "_" ++ marketType ++ "_" ++ msgType ++ "_" ++ symbol ++ period

/-- `DataEntry`: what the recorder gives to its data writer. -/
structure DataEntry where
  filename : String
  data : Bytes

/-- The loop of the recorder on what the subscriber yields: a message, with whether the data
writer accepts its entry, or an error. The list is the entries given to the data writer. -/
def recordLoop (ipc : String) : List (Except String (Bytes × Bool)) → List DataEntry
  | [] => []
  | .ok (message, accepted) :: received =>
    ⟨ipc, message⟩ :: (if accepted then recordLoop ipc received else [])
  | .error _ :: _ => []

/-- `create_write_file_thread` in the recorder: no entry if the data writer does not start or
the subscriber does not connect. -/
def createWriteFileThread (started connected : Bool) (ipc : String)
    (received : List (Except String (Bytes × Bool))) : List DataEntry :=
  if started ∧ connected then recordLoop ipc received else []

example : fileName (channelKey "kraken" "spot" "trade" "XBT/USD" "") = "kraken_spot_trade_XBT-USD" := by
  decide

variable {exchange marketType msgType symbol period : String}

/-- The `PERIOD` argument for a period: none for the empty one. -/
def periodArg (period : String) : Option String := if period = "" then none else some period

/-- The argument of the replay server for a channel with a period. -/
def marketDataArg (exchange marketType msgType symbol period : String) : Replay.MarketDataArg :=
  ⟨exchange, marketType, symbol, if period = "" then msgType else msgType ++ "@" ++ period⟩

/-- The recorder builds the writer's key. -/
theorem recorderIpc_eq : recorderIpc exchange marketType msgType symbol (periodArg period) =
    channelKey exchange marketType msgType symbol period := by
  unfold recorderIpc channelKey periodArg
  by_cases hp : period = ""
  · simp [hp]
  · have hsize : period.utf8ByteSize ≠ 0 := by simpa using hp
    simp [hp, hsize, String.append_assoc]

/-- The replay server builds the writer's key when the period has no `@`, and only then. -/
theorem toString_marketDataArg_eq_iff (hmsg : '@' ∉ msgType.toList) :
    (marketDataArg exchange marketType msgType symbol period).toString =
      channelKey exchange marketType msgType symbol period ↔ '@' ∉ period.toList := by
  unfold Replay.MarketDataArg.toString marketDataArg channelKey
  by_cases hp : period = ""
  · simp [hp, split_of_not_mem hmsg]
  · have hsize : period.utf8ByteSize ≠ 0 := by simpa using hp
    have hsplit : split '@' (msgType ++ "@" ++ period) = msgType :: split '@' period := by
      have := split_append_sep '@' msgType period
      rwa [split_of_not_mem hmsg] at this
    simp only [if_neg hp, if_neg hsize, hsplit, List.headD_cons, List.tail_cons]
    cases hs : split '@' period with
    | nil => exact absurd hs (split_ne_nil '@' period)
    | cons first rest =>
      -- the name ends with the first piece of the period
      have hfirst : first = period ↔ '@' ∉ period.toList := by
        have := headD_split_eq_iff (c := '@') (s := period) (d := "")
        rwa [hs, List.headD_cons] at this
      rw [← hfirst]
      simp [String.append_assoc]

theorem filename_of_mem_recordLoop {ipc : String} {received : List (Except String (Bytes × Bool))}
    {entry : DataEntry} (h : entry ∈ recordLoop ipc received) : entry.filename = ipc := by
  induction received with
  | nil => exact absurd h List.not_mem_nil
  | cons item received ih =>
    obtain _ | ⟨message, accepted⟩ := item
    · exact absurd h List.not_mem_nil
    · rcases List.mem_cons.1 h with rfl | hlater
      · rfl
      · cases accepted with
        | true => exact ih hlater
        | false => exact absurd hlater List.not_mem_nil

/-- Every entry of the recorder has the name of the channel. -/
theorem filename_of_mem {started connected : Bool} {ipc : String}
    {received : List (Except String (Bytes × Bool))} {entry : DataEntry}
    (h : entry ∈ createWriteFileThread started connected ipc received) : entry.filename = ipc := by
  unfold createWriteFileThread at h
  split at h
  · exact filename_of_mem_recordLoop h
  · exact absurd h List.not_mem_nil

theorem not_mem_channelKey {c : Char} (hc : c ≠ '_') :
    c ∉ (channelKey exchange marketType msgType symbol period).toList ↔
      ∀ field ∈ [exchange, marketType, msgType, symbol, period], c ∉ field.toList := by
  have hbar : c ∉ "_".toList := by simpa using hc
  have hsep : c ∉ (if period.utf8ByteSize = 0 then "" else "_").toList := by
    split
    · simp
    · exact hbar
  unfold channelKey
  simp only [String.toList_append, List.mem_append, hbar, hsep, or_false, not_or, List.forall_mem_cons,
    List.not_mem_nil, false_implies, implies_true, and_true, and_assoc]

/-- **Channel names.** For a message type without `@`, the file name the writer binds is
the name the recorder builds and the name the replay server builds, if and only if no
field has a `/` and the period has no `@`. -/
theorem names_agree_iff (exchange marketType msgType symbol period : String)
    (hmsg : '@' ∉ msgType.toList) :
    (fileName (channelKey exchange marketType msgType symbol period) =
        recorderIpc exchange marketType msgType symbol (periodArg period) ∧
      fileName (channelKey exchange marketType msgType symbol period) =
        (marketDataArg exchange marketType msgType symbol period).toString) ↔
      (∀ field ∈ [exchange, marketType, msgType, symbol, period], '/' ∉ field.toList) ∧
        '@' ∉ period.toList := by
  have hfile : fileName (channelKey exchange marketType msgType symbol period) =
      channelKey exchange marketType msgType symbol period ↔
      ∀ field ∈ [exchange, marketType, msgType, symbol, period], '/' ∉ field.toList := by
    rw [← not_mem_channelKey (by decide)]
    exact replacen_eq_self_iff (by decide) (by decide)
  have hstring : (marketDataArg exchange marketType msgType symbol period).toString =
      channelKey exchange marketType msgType symbol period ↔ '@' ∉ period.toList :=
    toString_marketDataArg_eq_iff hmsg
  rw [recorderIpc_eq, ← hstring, hfile]
  refine and_congr_right fun hslash => ?_
  rw [hfile.2 hslash, eq_comm]

/-- A channel with a period. -/
theorem names_agree_candlestick :
    fileName (channelKey "binance" "spot" "candlestick" "BTCUSDT" "60") =
        recorderIpc "binance" "spot" "candlestick" "BTCUSDT" (some "60") ∧
      fileName (channelKey "binance" "spot" "candlestick" "BTCUSDT" "60") =
        (Replay.MarketDataArg.mk "binance" "spot" "BTCUSDT" "candlestick@60").toString :=
  (names_agree_iff "binance" "spot" "candlestick" "BTCUSDT" "60" (by decide)).2 (by decide)

/-- **A symbol with a `/`**: the writer publishes where neither listens. -/
theorem names_differ_kraken :
    fileName (channelKey "kraken" "spot" "trade" "XBT/USD" "") ≠
        recorderIpc "kraken" "spot" "trade" "XBT/USD" (periodArg "") ∧
      fileName (channelKey "kraken" "spot" "trade" "XBT/USD" "") ≠
        (marketDataArg "kraken" "spot" "trade" "XBT/USD" "").toString := by
  decide

end CryptoMarket.Integration
