import CryptoMarket.Integration.BadMessages

/-!
# Integration server: the market type of a record

`crawl` gives one market type to the crawler and to the writer thread, and the key of a
channel has the market type of the message. The arms for `Candlestick` and `FundingRate`
hand the market type of the thread to the parser, the other four hand it `Spot`.

* `mem_written`: every byte string on a channel is the serialisation of a record of a
  message, whatever the queue answers.
* `parsedAsMarket_iff`: whatever the parsers do, that record is parsed with the market type
  of the channel exactly when the market is `Spot` or the arm is one of the two.
-/

namespace CryptoMarket.Integration

variable {x : Libs} {mq : Mq} {ch : Channel x} {msg : Message x} {key : String} {data : Bytes}

/-- The records of a message, parsed with a market type. -/
def parsedAs (ch : Channel x) (market : x.MarketType) (msg : Message x) :
    Option (List (String × Option Bytes)) :=
  match ch.msgType with
  | .bbo => (x.parseBbo ch.exchange market msg.json (some msg.receivedAt.toInt64)).map
      (List.map x.bbo.encode)
  | .trade => (x.parseTrade ch.exchange market msg.json).map (List.map x.trade.encode)
  | .l2Event => (x.parseL2 ch.exchange market msg.json none).map (List.map x.orderbook.encode)
  | .l2TopK => (x.parseL2Topk ch.exchange market msg.json (some msg.receivedAt.toInt64)).map
      (List.map x.orderbook.encode)
  | .candlestick => (x.parseCandlestick ch.exchange market msg.json none).map
      (List.map x.kline.encode)
  | .fundingRate => (x.parseFundingRate ch.exchange market msg.json (some 1232)).map
      (List.map fun msg => x.fundingRate.encode (x.fillEstimatedRate msg))
  | .other _ => none

/-- The market type that the arm hands to the parser. -/
def Channel.parserMarket (ch : Channel x) : x.MarketType :=
  match ch.msgType with
  | .candlestick | .fundingRate => ch.marketType
  | _ => x.spot

theorem parsed_eq (ch : Channel x) (msg : Message x) : parsed ch msg = parsedAs ch ch.parserMarket msg := by
  unfold parsed parsedAs Channel.parserMarket
  cases ch.msgType <;> rfl

/-! ## What is on a channel -/

/-- A publisher has its old bytes and entries of the `data_vec` with its key. -/
theorem mem_written_sendAll (ch : Channel x) (msg : Message x) :
    ∀ (v : List (String × Bytes)) (writers : Writers),
    data ∈ (sendAll mq ch msg v writers).2.written key →
      data ∈ writers.written key ∨ ∃ p ∈ v, ch.key msg p.1 = key ∧ p.2 = data := by
  intro v
  induction v with
  | nil => intro writers h; exact Or.inl h
  | cons p v ih =>
    obtain ⟨symbol, dataByte⟩ := p
    intro writers h
    -- an entry behind the first one
    have hlater : (∃ q ∈ v, ch.key msg q.1 = key ∧ q.2 = data) →
        ∃ q ∈ (symbol, dataByte) :: v, ch.key msg q.1 = key ∧ q.2 = data :=
      fun ⟨q, hq, heq⟩ => ⟨q, List.mem_cons_of_mem _ hq, heq⟩
    rw [sendAll] at h
    cases hmqk : writerMq mq (ch.key msg symbol) writers with
    | none => simp only [hmqk] at h; exact Or.inl h
    | some found =>
      obtain ⟨log, writers₁⟩ := found
      obtain ⟨hlog, hwritten⟩ := writerMq_eq_some hmqk
      simp only [hmqk] at h
      split at h
      · obtain hold | hnew := ih _ h
        · rw [written_insert] at hold
          split at hold
          · rename_i hk
            rw [hlog, ← hk, List.mem_append, List.mem_singleton] at hold
            obtain hold | rfl := hold
            · exact Or.inl hold
            · exact Or.inr ⟨_, List.mem_cons_self, hk.symm, rfl⟩
          · exact Or.inl (hwritten key ▸ hold)
        · exact Or.inr (hlater hnew)
      · obtain hold | hnew := ih _ h
        · exact Or.inl (hwritten key ▸ hold)
        · exact Or.inr (hlater hnew)

/-- An entry of the `data_vec` is a record that was parsed, with its bytes. -/
theorem mem_publishes {p : String × Bytes} (h : p ∈ ch.publishes msg) :
    ∃ r ∈ (parsed ch msg).getD [], r.1 = p.1 ∧ r.2 = some p.2 := by
  obtain ⟨r, hr, heq⟩ := List.mem_filterMap.1 h
  obtain ⟨data, hdata, rfl⟩ := Option.map_eq_some_iff.1 heq
  refine ⟨r, ?_, rfl, hdata⟩
  unfold Channel.seen at hr
  split at hr
  · exact List.mem_of_mem_take hr
  · exact hr

/-- **What is on a channel.** Every byte string is the serialisation of a record that the
thread parsed from a message. -/
theorem mem_written : ∀ (msgs : List (Message x)) (writers : Writers),
    data ∈ (createWriterThread mq ch msgs writers).2.written key →
    data ∈ writers.written key ∨
      ∃ msg ∈ msgs, ∃ r ∈ (parsed ch msg).getD [], ch.key msg r.1 = key ∧ r.2 = some data := by
  intro msgs
  induction msgs with
  | nil => intro writers h; exact Or.inl h
  | cons msg msgs ih =>
    intro writers h
    simp only [createWriterThread, dataVec_eq_ite] at h
    cases hs : ch.stops msg with
    | true => simp only [hs, if_true] at h; exact Or.inl h
    | false =>
      simp only [hs, Bool.false_eq_true, if_false] at h
      -- what this message adds
      have hsent : data ∈ (sendAll mq ch msg (ch.publishes msg) writers).2.written key →
          data ∈ writers.written key ∨ ∃ p ∈ ch.publishes msg, ch.key msg p.1 = key ∧ p.2 = data :=
        mem_written_sendAll ch msg (ch.publishes msg) writers
      have hhere : (∃ p ∈ ch.publishes msg, ch.key msg p.1 = key ∧ p.2 = data) →
          ∃ m ∈ msg :: msgs, ∃ r ∈ (parsed ch m).getD [], ch.key m r.1 = key ∧ r.2 = some data := by
        rintro ⟨p, hp, hkey, rfl⟩
        obtain ⟨r, hr, hsymbol, hdata⟩ := mem_publishes hp
        exact ⟨msg, List.mem_cons_self, r, hr, hsymbol ▸ hkey, hdata⟩
      cases hsend : sendAll mq ch msg (ch.publishes msg) writers with
      | mk ended writers' =>
        simp only [hsend] at h hsent
        cases ended with
        | false => exact (hsent h).imp_right hhere
        | true =>
          obtain hold | ⟨m, hm, hrec⟩ := ih writers' h
          · exact (hsent hold).imp_right hhere
          · exact Or.inr ⟨m, List.mem_cons_of_mem _ hm, hrec⟩

/-! ## The market type -/

/-- Every byte string on the channels of a thread for a market is the serialisation of a
record that is parsed with this market from a message of the market. -/
def ParsedAsMarket (ch : Channel x) : Prop :=
  ∀ (mq : Mq) (msgs : List (Message x)), (∀ msg ∈ msgs, msg.marketType = ch.marketType) →
    ∀ key data, data ∈ (createWriterThread mq ch msgs ∅).2.written key →
      ∃ msg ∈ msgs, ∃ r ∈ (parsedAs ch ch.marketType msg).getD [],
        ch.key msg r.1 = key ∧ r.2 = some data

theorem parsedAsMarket_of_eq (h : ch.parserMarket = ch.marketType) : ParsedAsMarket ch := by
  intro mq msgs _ key data hdata
  obtain hold | ⟨msg, hm, r, hr, hrec⟩ := mem_written msgs ∅ hdata
  · simp [Writers.written] at hold
  · rw [parsed_eq, h] at hr
    exact ⟨msg, hm, r, hr, hrec⟩

/-- A message whose parser tells the two markets apart. -/
theorem not_parsedAsMarket (msg : Message x) (r : String × Option Bytes) (hr : r.2.isSome)
    (hm : msg.marketType = ch.marketType) (hparsed : parsed ch msg = some [r])
    (hmarket : parsedAs ch ch.marketType msg = none) : ¬ ParsedAsMarket ch := by
  intro hall
  obtain ⟨data, hdata⟩ := Option.isSome_iff_exists.1 hr
  have hrecord : ∀ m ∈ [msg], ∃ records, parsed ch m = some records ∧ records ≠ [] := by
    intro m hmem
    rw [List.mem_singleton.1 hmem]
    exact ⟨_, hparsed, List.cons_ne_nil _ _⟩
  obtain ⟨writers, hrun, hw⟩ := written_createWriterThread workingMq_works [msg] ∅ hrecord
  have hone := hall workingMq [msg] (by simpa using hm) (ch.key msg r.1) data
  have hseen : ch.seen [r] = [r] := by
    unfold Channel.seen
    split <;> rfl
  rw [hrun, hw] at hone
  simp [Writers.written, hparsed, hseen, Channel.pick, hmarket, hdata] at hone

/-- `crypto_msg_parser` -/
structure Parsers (x : Libs) where
  bbo : String → x.MarketType → String → Option Int64 → Option (List x.BboMsg)
  trade : String → x.MarketType → String → Option (List x.TradeMsg)
  l2 : String → x.MarketType → String → Option Int64 → Option (List x.OrderBookMsg)
  l2Topk : String → x.MarketType → String → Option Int64 → Option (List x.OrderBookMsg)
  candlestick : String → x.MarketType → String → Option Int64 → Option (List x.CandlestickMsg)
  fundingRate : String → x.MarketType → String → Option Int64 → Option (List x.FundingRateMsg)

/-- The crates with other parsers. -/
def Libs.withParsers (x : Libs) (p : Parsers x) : Libs :=
  { x with
    parseBbo := p.bbo
    parseTrade := p.trade
    parseL2 := p.l2
    parseL2Topk := p.l2Topk
    parseCandlestick := p.candlestick
    parseFundingRate := p.fundingRate }

/-- The parsers that fail on everything. -/
def Parsers.failing (x : Libs) : Parsers x :=
  ⟨fun _ _ _ _ => none, fun _ _ _ => none, fun _ _ _ _ => none, fun _ _ _ _ => none,
    fun _ _ _ _ => none, fun _ _ _ _ => none⟩

/-- Some record of the type converts and serialises. -/
def Libs.Encodes (x : Libs) : MessageType → Prop
  | .bbo => ∃ msg, ((x.bbo.encode msg).2).isSome
  | .trade => ∃ msg, ((x.trade.encode msg).2).isSome
  | .l2Event | .l2TopK => ∃ msg, ((x.orderbook.encode msg).2).isSome
  | .candlestick => ∃ msg, ((x.kline.encode msg).2).isSome
  | .fundingRate => ∃ msg, ((x.fundingRate.encode (x.fillEstimatedRate msg)).2).isSome
  | .other _ => False

/-- Parsers under which a message of the market is decoded by the rules of `Spot`. -/
theorem exists_parsers (exchange period : String) {market : x.MarketType} {msgType : MessageType}
    (hspot : market ≠ x.spot) (hcandlestick : msgType ≠ .candlestick)
    (hfunding : msgType ≠ .fundingRate) (hencodes : x.Encodes msgType) :
    ∃ p : Parsers x,
      ¬ ParsedAsMarket (⟨exchange, market, msgType, period⟩ : Channel (x.withParsers p)) := by
  classical
  -- a record for `Spot`, and an error for the market
  cases msgType with
  | bbo =>
    obtain ⟨r, hr⟩ := hencodes
    refine ⟨{ Parsers.failing x with
      bbo := fun _ m _ _ => if m = market then none else some [r] }, ?_⟩
    exact not_parsedAsMarket ⟨exchange, market, .bbo, 0, ""⟩ (x.bbo.encode r) hr rfl
      (by simp [parsed, Libs.withParsers, Ne.symm hspot])
      (by simp [parsedAs, Libs.withParsers])
  | trade =>
    obtain ⟨r, hr⟩ := hencodes
    refine ⟨{ Parsers.failing x with
      trade := fun _ m _ => if m = market then none else some [r] }, ?_⟩
    exact not_parsedAsMarket ⟨exchange, market, .trade, 0, ""⟩ (x.trade.encode r) hr rfl
      (by simp [parsed, Libs.withParsers, Ne.symm hspot])
      (by simp [parsedAs, Libs.withParsers])
  | l2Event =>
    obtain ⟨r, hr⟩ := hencodes
    refine ⟨{ Parsers.failing x with
      l2 := fun _ m _ _ => if m = market then none else some [r] }, ?_⟩
    exact not_parsedAsMarket ⟨exchange, market, .l2Event, 0, ""⟩ (x.orderbook.encode r) hr rfl
      (by simp [parsed, Libs.withParsers, Ne.symm hspot])
      (by simp [parsedAs, Libs.withParsers])
  | l2TopK =>
    obtain ⟨r, hr⟩ := hencodes
    refine ⟨{ Parsers.failing x with
      l2Topk := fun _ m _ _ => if m = market then none else some [r] }, ?_⟩
    exact not_parsedAsMarket ⟨exchange, market, .l2TopK, 0, ""⟩ (x.orderbook.encode r) hr rfl
      (by simp [parsed, Libs.withParsers, Ne.symm hspot])
      (by simp [parsedAs, Libs.withParsers])
  | candlestick => exact absurd rfl hcandlestick
  | fundingRate => exact absurd rfl hfunding
  | other name => exact hencodes.elim

/-- A record with bytes is one of the type that converts and serialises. -/
theorem encodes_of_mem {r : String × Option Bytes} (hr : r ∈ (parsed ch msg).getD [])
    (hdata : r.2 = some data) : x.Encodes ch.msgType := by
  -- the record of the parser behind it
  have hrecord : ∀ {ρ : Type} (f : ρ → String × Option Bytes) (o : Option (List ρ)),
      r ∈ (o.map (List.map f)).getD [] → ∃ msg, (f msg).2.isSome := by
    intro ρ f o h
    cases o with
    | none => cases h
    | some l =>
      obtain ⟨msg, -, rfl⟩ := List.mem_map.1 h
      exact ⟨msg, by rw [hdata]; rfl⟩
  unfold parsed at hr
  unfold Libs.Encodes
  cases hm : ch.msgType with
  | bbo | trade | l2Event | l2TopK | candlestick | fundingRate =>
    simp only [hm] at hr
    exact hrecord _ _ hr
  | other name => simp only [hm] at hr; cases hr

/-- **The market type of a record.** Whatever the parsers do, every byte string on the
channels of a thread for a market is the serialisation of a record parsed with this
market, if and only if the market is `Spot`, or the type is `Candlestick` or
`FundingRate`, or no record of the type has bytes at all. -/
theorem parsedAsMarket_iff (x : Libs) (exchange : String) (market : x.MarketType)
    (msgType : MessageType) (period : String) :
    (∀ p : Parsers x,
        ParsedAsMarket (⟨exchange, market, msgType, period⟩ : Channel (x.withParsers p))) ↔
      market = x.spot ∨ msgType = .candlestick ∨ msgType = .fundingRate ∨ ¬ x.Encodes msgType := by
  constructor
  · intro hall
    by_contra hcond
    rw [not_or, not_or, not_or, not_not] at hcond
    obtain ⟨hspot, hcandlestick, hfunding, hencodes⟩ := hcond
    obtain ⟨p, hp⟩ := exists_parsers exchange period hspot hcandlestick hfunding hencodes
    exact hp (hall p)
  · rintro (rfl | rfl | rfl | hencodes) p
    · refine parsedAsMarket_of_eq ?_
      cases msgType <;> rfl
    · exact parsedAsMarket_of_eq rfl
    · exact parsedAsMarket_of_eq rfl
    · -- then nothing is on a channel
      intro mq msgs _ key data hdata
      obtain hold | ⟨msg, -, r, hr, -, hbytes⟩ := mem_written msgs ∅ hdata
      · simp [Writers.written] at hold
      · exact absurd (encodes_of_mem hr hbytes) hencodes

/-! ## A contract of ten -/

/-- The crates on runs with a trade of five contracts, each worth ten coins on the swap
market. -/
def contracts : Libs :=
  { twoPairs with
    parseTrade := fun _ (market : String) _ =>
      some [("BTCUSDT", if market = "spot" then [5] else [50])] }

/-- A trade of five contracts. -/
def swapTrade : Message contracts :=
  ⟨"binance", "linear_swap", .trade, 1660000000000, "\x7b\"s\":\"BTCUSDT\",\"q\":\"5\"\x7d"⟩

/-- **A trade of a swap is published with the amount it would have on `Spot`.** -/
theorem swap_trade_parsed_as_spot :
    ¬ ParsedAsMarket (⟨"binance", "linear_swap", .trade, ""⟩ : Channel contracts) := by
  intro hall
  have hdata := hall workingMq [swapTrade] (fun msg hm => by rw [List.mem_singleton.1 hm]; rfl)
    "binance_linear_swap_trade_BTCUSDT" [5]
  revert hdata
  decide

end CryptoMarket.Integration
