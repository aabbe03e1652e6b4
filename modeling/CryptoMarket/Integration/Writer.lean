import CryptoMarket.Integration.Names
import CryptoMarket.Lib.Log

/-!
# Integration server: the writer thread

`create_writer_thread` (`writers/mod.rs`). For each message of the crawler the thread
parses its records, converts and serialises each and publishes the bytes on the channel
of the record's symbol, creating the publisher at its first use. The parser, the
conversions and the queue are other crates and stay parameters (`Libs`, `Codec`, `Mq`);
the copy to redis is left out, `create_writer_threads` passes none.

* `written_createWriterThread`: with a queue that works, what each channel gets is what
  the arm of the message type makes of the messages, in order.
* `written_iff`: that is every record of the messages exactly when the arm is not the one
  for `BBO`, or no message has a publishable record after its first.
-/

namespace CryptoMarket.Integration

/-- How the records of one kind become bytes: `try_from` into the structure that is
published, and `serialize`. -/
structure Codec (ρ σ : Type) where
  symbol : ρ → String
  tryFrom : ρ → Option σ
  serialize : σ → Option Bytes

/-- `crypto_crawler::MessageType` -/
inductive MessageType where
  | bbo
  | trade
  | l2Event
  | l2TopK
  | candlestick
  | fundingRate
  /-- The types the thread does not handle. -/
  | other (name : String)
  deriving DecidableEq, Repr

/-- What the thread calls in `crypto_msg_parser`, `crypto_crawler` and `wmjtyd_libstock`. -/
structure Libs where
  MarketType : Type
  spot : MarketType
  /-- `Display` of the market type. -/
  marketName : MarketType → String
  /-- `Display` of the message type. -/
  messageName : MessageType → String
  BboMsg : Type
  TradeMsg : Type
  OrderBookMsg : Type
  CandlestickMsg : Type
  FundingRateMsg : Type
  Rate : Type
  /-- `0.0` -/
  zeroRate : Rate
  estimatedRate : FundingRateMsg → Option Rate
  setEstimatedRate : Option Rate → FundingRateMsg → FundingRateMsg
  BboStructure : Type
  TradeStructure : Type
  OrderbookStructure : Type
  KlineStructure : Type
  FundingRateStructure : Type
  bbo : Codec BboMsg BboStructure
  trade : Codec TradeMsg TradeStructure
  orderbook : Codec OrderBookMsg OrderbookStructure
  kline : Codec CandlestickMsg KlineStructure
  fundingRate : Codec FundingRateMsg FundingRateStructure
  parseBbo : String → MarketType → String → Option Int64 → Option (List BboMsg)
  parseTrade : String → MarketType → String → Option (List TradeMsg)
  parseL2 : String → MarketType → String → Option Int64 → Option (List OrderBookMsg)
  parseL2Topk : String → MarketType → String → Option Int64 → Option (List OrderBookMsg)
  parseCandlestick : String → MarketType → String → Option Int64 → Option (List CandlestickMsg)
  parseFundingRate : String → MarketType → String → Option Int64 → Option (List FundingRateMsg)

/-- `crypto_crawler::Message` -/
structure Message (x : Libs) where
  exchange : String
  marketType : x.MarketType
  msgType : MessageType
  /-- In milliseconds. -/
  receivedAt : UInt64
  json : String

/-- The arguments of the thread. -/
structure Channel (x : Libs) where
  exchange : String
  marketType : x.MarketType
  msgType : MessageType
  period : String

variable {x : Libs} {ρ σ : Type}

/-- The loop of an arm over the parsed records: the `data_vec` it fills. -/
def Codec.dataVec (c : Codec ρ σ) : List ρ → List (String × Bytes)
  | [] => []
  | msg :: msgs =>
    let symbol := c.symbol msg
    match c.tryFrom msg with
    | none => c.dataVec msgs
    | some structure_ =>
      match c.serialize structure_ with
      | none => c.dataVec msgs
      | some byteData => (symbol, byteData) :: c.dataVec msgs

/-- What the funding rate arm does to a record first. -/
def Libs.fillEstimatedRate (x : Libs) (msg : x.FundingRateMsg) : x.FundingRateMsg :=
  if (x.estimatedRate msg).isNone then x.setEstimatedRate (some x.zeroRate) msg else msg

/-- The `match` on the message type: the `data_vec` of a message, no value if the thread
panics. -/
def dataVec (ch : Channel x) (msg : Message x) : Option (List (String × Bytes)) :=
  match ch.msgType with
  | .bbo =>
    match x.parseBbo ch.exchange x.spot msg.json (some msg.receivedAt.toInt64) with
    | none => none
    -- `swap_remove(0)` panics on an empty vector
    | some [] => none
    | some (bboMsg :: _) =>
      let symbol := x.bbo.symbol bboMsg
      match x.bbo.tryFrom bboMsg with
      | none => some []
      | some bboStructure =>
        match x.bbo.serialize bboStructure with
        | none => some []
        | some byteData => some [(symbol, byteData)]
  | .trade => (x.parseTrade ch.exchange x.spot msg.json).map x.trade.dataVec
  | .l2Event => (x.parseL2 ch.exchange x.spot msg.json none).map x.orderbook.dataVec
  | .l2TopK =>
    (x.parseL2Topk ch.exchange x.spot msg.json (some msg.receivedAt.toInt64)).map x.orderbook.dataVec
  | .candlestick => (x.parseCandlestick ch.exchange ch.marketType msg.json none).map x.kline.dataVec
  | .fundingRate =>
    (x.parseFundingRate ch.exchange ch.marketType msg.json (some 1232)).map fun msgs =>
      x.fundingRate.dataVec (msgs.map x.fillEstimatedRate)
  | .other _ => none

/-! ## Publishing -/

/-- What `ZeromqPublisher` answers. -/
structure Mq where
  /-- `new` and `bind` on the address succeed. -/
  bind : String → Bool
  /-- `write_all` and `flush` of some bytes succeed, after what was written before. -/
  write : String → List Bytes → Bytes → Bool

/-- `writers`: for each key what was written to its publisher, oldest first. -/
abbrev Writers := HashMap String (List Bytes)

/-- The key of a record. -/
def Channel.key (ch : Channel x) (msg : Message x) (symbol : String) : String :=
  channelKey msg.exchange (x.marketName msg.marketType) (x.messageName msg.msgType) symbol ch.period

/-- `create`: whether there is a publisher. -/
def create (mq : Mq) (name : String) : Bool := mq.bind ("ipc:///tmp/" ++ fileName name ++ ".ipc")

/-- The publisher of a key, created if there is none; no value if `create` panics. -/
def writerMq (mq : Mq) (key : String) (writers : Writers) : Option (List Bytes × Writers) :=
  match writers.lookup key with
  | some log => some (log, writers)
  | none => if create mq key then some ([], writers.insert key []) else none

/-- The loop that sends the `data_vec` of a message: whether it ends, and the writers. -/
def sendAll (mq : Mq) (ch : Channel x) (msg : Message x) : List (String × Bytes) → Writers → Bool × Writers
  | [], writers => (true, writers)
  | (symbol, dataByte) :: dataVec, writers =>
    let key := ch.key msg symbol
    match writerMq mq key writers with
    | none => (false, writers)
    | some (log, writers) =>
      if mq.write key log dataByte then
        sendAll mq ch msg dataVec (writers.insert key (log ++ [dataByte]))
      else sendAll mq ch msg dataVec writers

/-- `create_writer_thread`, from the given writers: whether it ends without a panic, and
the writers. -/
def createWriterThread (mq : Mq) (ch : Channel x) : List (Message x) → Writers → Bool × Writers
  | [], writers => (true, writers)
  | msg :: rx, writers =>
    match dataVec ch msg with
    | none => (false, writers)
    | some v =>
      match sendAll mq ch msg v writers with
      | (false, writers) => (false, writers)
      | (true, writers) => createWriterThread mq ch rx writers

/-- What was written to the publisher of a key. -/
def Writers.written (writers : Writers) (key : String) : List Bytes := (writers.lookup key).getD []

/-! ## What is owed -/

/-- The symbol of a record and its bytes, if it converts and serialises. -/
def Codec.encode (c : Codec ρ σ) (msg : ρ) : String × Option Bytes :=
  (c.symbol msg, (c.tryFrom msg).bind c.serialize)

/-- The records of a message, if the parser of the message type returns some. -/
def parsed (ch : Channel x) (msg : Message x) : Option (List (String × Option Bytes)) :=
  match ch.msgType with
  | .bbo => (x.parseBbo ch.exchange x.spot msg.json (some msg.receivedAt.toInt64)).map
      (List.map x.bbo.encode)
  | .trade => (x.parseTrade ch.exchange x.spot msg.json).map (List.map x.trade.encode)
  | .l2Event => (x.parseL2 ch.exchange x.spot msg.json none).map (List.map x.orderbook.encode)
  | .l2TopK => (x.parseL2Topk ch.exchange x.spot msg.json (some msg.receivedAt.toInt64)).map
      (List.map x.orderbook.encode)
  | .candlestick => (x.parseCandlestick ch.exchange ch.marketType msg.json none).map
      (List.map x.kline.encode)
  | .fundingRate => (x.parseFundingRate ch.exchange ch.marketType msg.json (some 1232)).map
      (List.map fun msg => x.fundingRate.encode (x.fillEstimatedRate msg))
  | .other _ => none

/-- Of the records of a message the bytes for one key. -/
def Channel.pick (ch : Channel x) (msg : Message x) (key : String)
    (records : List (String × Option Bytes)) : List Bytes :=
  records.filterMap fun r => if ch.key msg r.1 = key then r.2 else none

/-- What is owed to a key: the bytes of all its records. -/
def owed (ch : Channel x) (msgs : List (Message x)) (key : String) : List Bytes :=
  msgs.flatMap fun msg => ch.pick msg key ((parsed ch msg).getD [])

/-- The queue never fails. -/
structure Mq.Works (mq : Mq) : Prop where
  bind : ∀ address, mq.bind address = true
  write : ∀ key log data, mq.write key log data = true

variable {mq : Mq} {ch : Channel x} {msg : Message x} {msgs : List (Message x)} {key : String}

/-! ## One message -/

/-- The records that have bytes. -/
def publishable (records : List (String × Option Bytes)) : List (String × Bytes) :=
  records.filterMap fun r => r.2.map fun data => (r.1, data)

/-- The entries of a `data_vec` for one key. -/
def Channel.pickData (ch : Channel x) (msg : Message x) (key : String) (v : List (String × Bytes)) :
    List Bytes :=
  v.filterMap fun p => if ch.key msg p.1 = key then some p.2 else none

theorem pickData_publishable (records : List (String × Option Bytes)) :
    ch.pickData msg key (publishable records) = ch.pick msg key records := by
  unfold Channel.pickData publishable Channel.pick
  rw [List.filterMap_filterMap]
  refine List.filterMap_congr fun r _ => ?_
  cases r.2 <;> simp

/-- An arm's loop keeps the records that have bytes. -/
theorem Codec.dataVec_eq (c : Codec ρ σ) (msgs : List ρ) :
    c.dataVec msgs = publishable (msgs.map c.encode) := by
  induction msgs with
  | nil => rfl
  | cons msg msgs ih =>
    unfold Codec.dataVec
    have hencode : (c.encode msg).2 = (c.tryFrom msg).bind c.serialize := rfl
    cases ht : c.tryFrom msg with
    | none =>
      rw [ht] at hencode
      simp only [ih, publishable, List.map_cons, List.filterMap_cons, hencode]
      rfl
    | some structure_ =>
      rw [ht, Option.bind_some] at hencode
      cases hs : c.serialize structure_ with
      | none =>
        rw [hs] at hencode
        simp only [hs, ih, publishable, List.map_cons, List.filterMap_cons, hencode]
        rfl
      | some byteData =>
        rw [hs] at hencode
        simp only [hs, ih, publishable, List.map_cons, List.filterMap_cons, hencode]
        rfl

/-- The records that an arm publishes: the one for `BBO` looks at the first only. -/
def Channel.seen (ch : Channel x) (records : List (String × Option Bytes)) :
    List (String × Option Bytes) :=
  if ch.msgType = .bbo then records.take 1 else records

/-- **The `data_vec` of a message** that is parsed into at least one record. -/
theorem dataVec_eq {records : List (String × Option Bytes)} (hp : parsed ch msg = some records)
    (hne : records ≠ []) : dataVec ch msg = some (publishable (ch.seen records)) := by
  -- the arms that loop over the records
  have harm : ∀ {ρ σ : Type} (c : Codec ρ σ) (rs : Option (List ρ)), ch.msgType ≠ .bbo →
      rs.map (List.map c.encode) = some records →
      rs.map c.dataVec = some (publishable (ch.seen records)) := by
    intro ρ σ c rs hbbo hrs
    obtain ⟨l, rfl, rfl⟩ := Option.map_eq_some_iff.1 hrs
    rw [Channel.seen, if_neg hbbo, Option.map_some, c.dataVec_eq]
  unfold parsed at hp
  unfold dataVec
  cases hm : ch.msgType with
  | bbo =>
    simp only [hm] at hp ⊢
    obtain ⟨l, hl, rfl⟩ := Option.map_eq_some_iff.1 hp
    simp only [hl]
    cases l with
    | nil => exact absurd rfl hne
    | cons bboMsg rest =>
      -- one record, converted and serialised
      have hone := x.bbo.dataVec_eq [bboMsg]
      rw [Channel.seen, if_pos hm, List.map_cons, List.take_succ_cons, List.take_zero]
      rw [List.map_cons, List.map_nil] at hone
      rw [← hone]
      simp only [Codec.dataVec]
      cases ht : x.bbo.tryFrom bboMsg with
      | none => rfl
      | some bboStructure =>
        cases hs : x.bbo.serialize bboStructure with
        | none => simp [hs]
        | some byteData => simp [hs]
  | trade => simp only [hm] at hp ⊢; exact harm _ _ (by simp [hm]) hp
  | l2Event => simp only [hm] at hp ⊢; exact harm _ _ (by simp [hm]) hp
  | l2TopK => simp only [hm] at hp ⊢; exact harm _ _ (by simp [hm]) hp
  | candlestick => simp only [hm] at hp ⊢; exact harm _ _ (by simp [hm]) hp
  | fundingRate =>
    simp only [hm] at hp ⊢
    have hfill := harm x.fundingRate ((x.parseFundingRate ch.exchange ch.marketType msg.json
      (some 1232)).map (List.map x.fillEstimatedRate)) (by simp [hm])
    simp only [Option.map_map, Function.comp_def, List.map_map] at hfill
    exact hfill hp
  | other name => simp only [hm] at hp; cases hp

/-! ## What is written -/

theorem written_insert (writers : Writers) (key' : String) (log : List Bytes) :
    Writers.written (writers.insert key' log) key = if key = key' then log else writers.written key := by
  unfold Writers.written
  rw [HashMap.lookup_insert_eq]
  split <;> rfl

/-- **Looking a publisher up, or creating it,** gives what was written to it and writes
nothing. -/
theorem writerMq_eq_some {writers writers₁ : Writers} {key' : String} {log : List Bytes}
    (h : writerMq mq key' writers = some (log, writers₁)) :
    log = writers.written key' ∧ ∀ key, writers₁.written key = writers.written key := by
  unfold writerMq at h
  cases hl : writers.lookup key' with
  | some log' =>
    simp only [hl, Option.some.injEq, Prod.mk.injEq] at h
    obtain ⟨rfl, rfl⟩ := h
    exact ⟨by rw [Writers.written, hl]; rfl, fun _ => rfl⟩
  | none =>
    simp only [hl, Option.ite_none_right_eq_some, Option.some.injEq, Prod.mk.injEq] at h
    obtain ⟨-, rfl, rfl⟩ := h
    have hempty : writers.written key' = [] := by rw [Writers.written, hl]; rfl
    refine ⟨hempty.symm, fun key => ?_⟩
    rw [written_insert]
    split
    · rename_i heq; rw [heq, hempty]
    · rfl

theorem exists_writerMq (hmq : mq.Works) (key' : String) (writers : Writers) :
    ∃ log writers₁, writerMq mq key' writers = some (log, writers₁) := by
  unfold writerMq
  cases writers.lookup key' with
  | some log => exact ⟨log, writers, rfl⟩
  | none => exact ⟨[], _, if_pos (hmq.bind _)⟩

/-- **One `data_vec`.** Each channel gets the entries with its key, in order. -/
theorem written_sendAll (hmq : mq.Works) (ch : Channel x) (msg : Message x) :
    ∀ (v : List (String × Bytes)) (writers : Writers),
    ∃ writers', sendAll mq ch msg v writers = (true, writers') ∧
      ∀ key, writers'.written key = writers.written key ++ ch.pickData msg key v := by
  intro v
  induction v with
  | nil => intro writers; exact ⟨writers, rfl, fun key => by simp [Channel.pickData]⟩
  | cons p v ih =>
    obtain ⟨symbol, dataByte⟩ := p
    intro writers
    obtain ⟨log, writers₁, hmqk⟩ := exists_writerMq hmq (ch.key msg symbol) writers
    obtain ⟨hlog, hw₁⟩ := writerMq_eq_some hmqk
    obtain ⟨writers', hsend, hw'⟩ := ih (writers₁.insert (ch.key msg symbol) (log ++ [dataByte]))
    refine ⟨writers', ?_, fun key => ?_⟩
    · simp only [sendAll, hmqk, hmq.write, if_true]
      exact hsend
    · rw [hw', written_insert]
      unfold Channel.pickData
      by_cases hk : key = ch.key msg symbol
      · rw [if_pos hk, List.filterMap_cons, if_pos hk.symm, hlog, hk]
        simp
      · rw [if_neg hk, List.filterMap_cons, if_neg (Ne.symm hk), hw₁]

/-- **A run of the thread** over messages that are parsed into records: it ends, and each
channel gets what its arm sees of them. -/
theorem written_createWriterThread (hmq : mq.Works) : ∀ (msgs : List (Message x)) (writers : Writers),
    (∀ msg ∈ msgs, ∃ records, parsed ch msg = some records ∧ records ≠ []) →
    ∃ writers', createWriterThread mq ch msgs writers = (true, writers') ∧
      ∀ key, writers'.written key = writers.written key ++
        msgs.flatMap fun msg => ch.pick msg key (ch.seen ((parsed ch msg).getD [])) := by
  intro msgs
  induction msgs with
  | nil => intro writers _; exact ⟨writers, rfl, fun key => by simp⟩
  | cons msg msgs ih =>
    intro writers hall
    obtain ⟨records, hp, hne⟩ := hall msg List.mem_cons_self
    obtain ⟨writers₁, hsend, hw₁⟩ :=
      written_sendAll hmq ch msg (publishable (ch.seen records)) writers
    obtain ⟨writers', hrun, hw'⟩ := ih writers₁ fun m hm => hall m (List.mem_cons_of_mem _ hm)
    refine ⟨writers', ?_, fun key => ?_⟩
    · simp only [createWriterThread, dataVec_eq hp hne, hsend]
      exact hrun
    · rw [hw', hw₁, pickData_publishable, List.flatMap_cons, hp, Option.getD_some, List.append_assoc]

/-! ## Every record -/

/-- What an arm sees is the beginning of the records. -/
theorem pick_seen_prefix (records : List (String × Option Bytes)) :
    ch.pick msg key (ch.seen records) <+: ch.pick msg key records := by
  unfold Channel.seen
  split
  · exact (List.take_prefix 1 records).filterMap _
  · exact List.prefix_refl _

/-- Everything is seen of a message exactly when the arm is not the one for `BBO`, or the
records after the first have no bytes. -/
theorem pick_seen_eq_iff (records : List (String × Option Bytes)) :
    (∀ key, ch.pick msg key (ch.seen records) = ch.pick msg key records) ↔
      (ch.msgType = .bbo → ∀ r ∈ records.drop 1, r.2 = none) := by
  unfold Channel.seen
  by_cases hbbo : ch.msgType = .bbo
  · simp only [hbbo, if_true, true_implies]
    have hsplit : ∀ key, ch.pick msg key records =
        ch.pick msg key (records.take 1) ++ ch.pick msg key (records.drop 1) := by
      intro key
      unfold Channel.pick
      rw [← List.filterMap_append, List.take_append_drop]
    constructor
    · intro hall r hr
      have hk := hall (ch.key msg r.1)
      rw [hsplit, List.self_eq_append_right] at hk
      have hnone := List.filterMap_eq_nil_iff.1 hk r hr
      rwa [if_pos rfl] at hnone
    · intro hnone key
      rw [hsplit, List.self_eq_append_right]
      refine List.filterMap_eq_nil_iff.2 fun r hr => ?_
      rw [hnone r hr]
      split <;> rfl
  · simp [hbbo]

/-- **What is published.** With a queue that works, over messages that are parsed into at
least one record, every channel gets the bytes of all its records, in order, if and only
if the messages are not of type `BBO` or none has a record with bytes after its first. -/
theorem written_iff (mq : Mq) (ch : Channel x) (msgs : List (Message x)) (hmq : mq.Works)
    (hparsed : ∀ msg ∈ msgs, ∃ records, parsed ch msg = some records ∧ records ≠ []) :
    (∀ key, (createWriterThread mq ch msgs ∅).2.written key = owed ch msgs key) ↔
      (ch.msgType = .bbo → ∀ msg ∈ msgs, ∀ records, parsed ch msg = some records →
        ∀ r ∈ records.drop 1, r.2 = none) := by
  obtain ⟨writers, hrun, hw⟩ := written_createWriterThread hmq msgs ∅ hparsed
  have hempty : ∀ key, Writers.written ∅ key = [] := fun key => by simp [Writers.written]
  simp only [hrun, hw, hempty, List.nil_append, owed]
  have hpieces : ∀ key, (msgs.flatMap (fun msg => ch.pick msg key (ch.seen ((parsed ch msg).getD []))) =
        msgs.flatMap fun msg => ch.pick msg key ((parsed ch msg).getD [])) ↔
      ∀ msg ∈ msgs, ch.pick msg key (ch.seen ((parsed ch msg).getD [])) =
        ch.pick msg key ((parsed ch msg).getD []) :=
    fun key => flatMap_prefix_eq_iff fun msg _ => pick_seen_prefix _
  simp only [hpieces]
  constructor
  · intro hall hbbo msg hm records hp
    have hmsg := (pick_seen_eq_iff ((parsed ch msg).getD [])).1 (fun key => hall key msg hm) hbbo
    rwa [hp] at hmsg
  · intro hcond key msg hm
    obtain ⟨records, hp, -⟩ := hparsed msg hm
    refine (pick_seen_eq_iff _).2 (fun hbbo => ?_) key
    rw [hp]
    exact hcond hbbo msg hm records hp

/-! ## Two records in a message -/

/-- Records that are their symbol and bytes. -/
def plainCodec : Codec (String × Bytes) Bytes := ⟨Prod.fst, fun msg => some msg.2, some⟩

/-- The crates on runs in which every message has the records of two pairs. -/
def twoPairs : Libs where
  MarketType := String
  spot := "spot"
  marketName name := name
  messageName
    | .bbo => "bbo"
    | .trade => "trade"
    | .l2Event => "l2_event"
    | .l2TopK => "l2_topk"
    | .candlestick => "candlestick"
    | .fundingRate => "funding_rate"
    | .other name => name
  BboMsg := String × Bytes
  TradeMsg := String × Bytes
  OrderBookMsg := String × Bytes
  CandlestickMsg := String × Bytes
  FundingRateMsg := String × Bytes
  Rate := Unit
  zeroRate := ()
  estimatedRate _ := some ()
  setEstimatedRate _ msg := msg
  BboStructure := Bytes
  TradeStructure := Bytes
  OrderbookStructure := Bytes
  KlineStructure := Bytes
  FundingRateStructure := Bytes
  bbo := plainCodec
  trade := plainCodec
  orderbook := plainCodec
  kline := plainCodec
  fundingRate := plainCodec
  parseBbo _ _ _ _ := some [("BTCUSDT", [1]), ("ETHUSDT", [2])]
  parseTrade _ _ _ := some [("BTCUSDT", [1]), ("ETHUSDT", [2])]
  parseL2 _ _ _ _ := some [("BTCUSDT", [1]), ("ETHUSDT", [2])]
  parseL2Topk _ _ _ _ := some [("BTCUSDT", [1]), ("ETHUSDT", [2])]
  parseCandlestick _ _ _ _ := some [("BTCUSDT", [1]), ("ETHUSDT", [2])]
  parseFundingRate _ _ _ _ := some [("BTCUSDT", [1]), ("ETHUSDT", [2])]

/-- The queue that never fails. -/
def workingMq : Mq := ⟨fun _ => true, fun _ _ _ => true⟩

theorem workingMq_works : workingMq.Works := ⟨fun _ => rfl, fun _ _ _ => rfl⟩

/-- A message with the records of two pairs, of the type. -/
def pairsMessage (msgType : MessageType) : Message twoPairs :=
  ⟨"binance", "spot", msgType, 1660000000000, "[\x7b\"s\":\"BTCUSDT\"\x7d,\x7b\"s\":\"ETHUSDT\"\x7d]"⟩

/-- The thread for the type. -/
def pairsChannel (msgType : MessageType) : Channel twoPairs := ⟨"binance", "spot", msgType, ""⟩

/-- The second trade of a message is published. -/
theorem written_trade : (createWriterThread workingMq (pairsChannel .trade)
    [pairsMessage .trade] ∅).2.written "binance_spot_trade_ETHUSDT" = [[2]] := by
  have howed : owed (pairsChannel .trade) [pairsMessage .trade] "binance_spot_trade_ETHUSDT" = [[2]] := by
    decide
  rw [← howed]
  refine (written_iff workingMq (pairsChannel .trade) [pairsMessage .trade] workingMq_works ?_).2 ?_ _
  · intro msg hm
    rw [List.mem_singleton.1 hm]
    exact ⟨_, rfl, List.cons_ne_nil _ _⟩
  · intro hbbo
    cases hbbo

/-- **The second best offer of a message is lost.** -/
theorem not_written_bbo :
    parsed (pairsChannel .bbo) (pairsMessage .bbo) =
        some [("BTCUSDT", some [1]), ("ETHUSDT", some [2])] ∧
      ¬ ∀ key, (createWriterThread workingMq (pairsChannel .bbo) [pairsMessage .bbo] ∅).2.written key =
        owed (pairsChannel .bbo) [pairsMessage .bbo] key := by
  refine ⟨rfl, fun hall => ?_⟩
  have hlost : (createWriterThread workingMq (pairsChannel .bbo) [pairsMessage .bbo] ∅).2.written
      "binance_spot_bbo_ETHUSDT" = [] := by decide
  have howed : owed (pairsChannel .bbo) [pairsMessage .bbo] "binance_spot_bbo_ETHUSDT" = [[2]] := by
    decide
  have heq := hall "binance_spot_bbo_ETHUSDT"
  rw [hlost, howed] at heq
  cases heq

end CryptoMarket.Integration
