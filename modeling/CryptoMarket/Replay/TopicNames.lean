import CryptoMarket.Replay.DynamicConfig
import CryptoMarket.Replay.Subscriptions

/-!
# Replay server: the names of topics

`to_string` glues the exchange, the market type, the name of the message type, the symbol
and the period, if there is one, with `_`. The name is also the endpoint a task subscribes
to and the symbol under which it sends to the hub, while the map of tasks has the value
itself as its key.

* `toString_eq_iff`: two values have one name exactly when they have the same **words**,
  their fields cut at `_`.
* `names_clash_iff`: in every reachable state two tasks have one endpoint exactly when two
  entries have the same words, and a session that the hub lists under the name of a value
  gets a message of its feed once for each entry with its words.
-/

namespace CryptoMarket.Replay

/-- The part of the message type before the first `@`. -/
def MarketDataArg.msgName (m : MarketDataArg) : String := (split '@' m.msgType).headD m.msgType

/-- The part between the first `@` and the second. -/
def MarketDataArg.msgPeriod (m : MarketDataArg) : Option String := (split '@' m.msgType).tail.head?

/-- What `to_string` glues, cut at `_`. -/
def MarketDataArg.words (m : MarketDataArg) : List String :=
  split '_' m.exchange ++ (split '_' m.marketType ++ (split '_' m.msgName ++ (split '_' m.symbol ++
    (m.msgPeriod.map (split '_')).getD [])))

/-- How many `_` the first four texts have, and what the name leaves out: the parts of the
message type after the second `@`. -/
def MarketDataArg.layout (m : MarketDataArg) : List ℕ × List String :=
  ([m.exchange, m.marketType, m.msgName, m.symbol].map fun s => s.toList.count '_',
    (split '@' m.msgType).tail.tail)

/-- `path` in `msg_sub_handle`: where the task of an entry subscribes. -/
def MarketDataArg.path (m : MarketDataArg) : String := "ipc:///tmp/" ++ m.toString ++ ".ipc"

/-- What the live tasks send to the hub for a message published at `path`: one item from
each task that subscribes there, in no particular order. -/
def DynamicConfigHandler.forwarded (h : DynamicConfigHandler) (path : String) (data : Bytes) :
    Multiset (String × String × Bytes) :=
  ((h.live.entries.map fun e => e.2).filter fun m => m.path = path).map fun m =>
    (m.toString, m.msgType, data)

example : btcTrade.words = ["binance", "spot", "trade", "BTCUSDT"] := by decide

variable {m m' : MarketDataArg} {parse : Parse} {o : Orders} {us : List Update}
  {h h₀ : DynamicConfigHandler} {content : Option String}

/-! ## Names -/

theorem split_msgType (m : MarketDataArg) :
    split '@' m.msgType = m.msgName :: (m.msgPeriod.toList ++ (split '@' m.msgType).tail.tail) := by
  unfold MarketDataArg.msgName MarketDataArg.msgPeriod
  rcases hs : split '@' m.msgType with _ | ⟨name, _ | ⟨period, rest⟩⟩
  · exact absurd hs (split_ne_nil _ _)
  · rfl
  · rfl

/-- **The name, cut at `_`,** gives the words. -/
theorem split_toString (m : MarketDataArg) : split '_' m.toString = m.words := by
  have hglue : ∀ a b : String, split '_' (a ++ "_" ++ b) = split '_' a ++ split '_' b :=
    split_append_sep '_'
  unfold MarketDataArg.toString MarketDataArg.words MarketDataArg.msgName MarketDataArg.msgPeriod
  cases hs : (split '@' m.msgType).tail with
  | nil =>
    simp only [hs, String.append_empty, hglue, List.append_assoc, List.head?_nil, Option.map_none,
      Option.getD_none, List.append_nil]
  | cons period rest =>
    simp only [hs, ← String.append_assoc, hglue, List.append_assoc, List.head?_cons, Option.map_some,
      Option.getD_some]

theorem toString_eq_iff : m.toString = m'.toString ↔ m.words = m'.words := by
  rw [← split_toString, ← split_toString, split_inj]

theorem path_eq_iff : m.path = m'.path ↔ m.words = m'.words := by
  rw [← toString_eq_iff]
  unfold MarketDataArg.path
  constructor
  · intro hpath
    exact String.append_right_inj _ |>.1 (String.append_left_inj _ |>.1 hpath)
  · intro hname
    rw [hname]

/-- The words of a text that may be missing tell the text, if there is one. -/
theorem eq_of_getD_split {c : Char} {p p' : Option String}
    (h : (p.map (split c)).getD [] = (p'.map (split c)).getD []) : p = p' := by
  cases p with
  | none =>
    cases p' with
    | none => rfl
    | some period' => exact absurd h.symm (split_ne_nil c period')
  | some period =>
    cases p' with
    | none => exact absurd h (split_ne_nil c period)
    | some period' => rw [split_inj.1 h]

/-- Values with the same words and the same layout are the same. -/
theorem eq_of_words (hwords : m.words = m'.words) (hlayout : m.layout = m'.layout) : m = m' := by
  obtain ⟨hcounts, hrest⟩ := Prod.mk.inj hlayout
  simp only [List.map_cons, List.map_nil, List.cons.injEq, and_true] at hcounts
  obtain ⟨hexchange, hmarket, hname, hsymbol⟩ := hcounts
  -- the words of each text end where those of the other value do
  have hlen : ∀ {s t : String}, s.toList.count '_' = t.toList.count '_' →
      (split '_' s).length = (split '_' t).length := by
    intro s t hst
    rw [length_split, length_split, hst]
  obtain ⟨h1, hwords⟩ := List.append_inj hwords (hlen hexchange)
  obtain ⟨h2, hwords⟩ := List.append_inj hwords (hlen hmarket)
  obtain ⟨h3, hwords⟩ := List.append_inj hwords (hlen hname)
  obtain ⟨h4, hwords⟩ := List.append_inj hwords (hlen hsymbol)
  have hperiod : m.msgPeriod = m'.msgPeriod := eq_of_getD_split hwords
  have hmsgType : m.msgType = m'.msgType := by
    rw [← split_inj (c := '@'), split_msgType m, split_msgType m', split_inj.1 h3, hperiod, hrest]
  obtain ⟨exchange, marketType, symbol, msgType⟩ := m
  obtain ⟨exchange', marketType', symbol', msgType'⟩ := m'
  exact (MarketDataArg.mk.injEq ..).mpr ⟨split_inj.1 h1, split_inj.1 h2, split_inj.1 h4, hmsgType⟩

/-! ## Tasks -/

section tasks

variable {config : List MarketDataArg} {f : MarketDataArg} {data : Bytes}

theorem exists_live_iff (hm : h.Matched subTask) (hkeys : ∀ arg, arg ∈ h.map ↔ arg ∈ config) :
    (∃ n, h.live.lookup n = some m) ↔ m ∈ config := by
  have hentry : (∃ n, h.live.lookup n = some m) ↔ ∃ k t, h.map.lookup k = some t ∧ k = m :=
    hm.exists_live
  rw [hentry, ← hkeys, Finmap.mem_iff]
  constructor
  · rintro ⟨k, t, ht, rfl⟩
    exact ⟨t, ht⟩
  · rintro ⟨t, ht⟩
    exact ⟨m, t, ht, rfl⟩

/-- **Endpoints and symbols of the live tasks** are different exactly when the words of the
entries are. -/
theorem distinct_iff (hm : h.Matched subTask) (hkeys : ∀ arg, arg ∈ h.map ↔ arg ∈ config) :
    (∀ n m n' m', h.live.lookup n = some m → h.live.lookup n' = some m' → n ≠ n' →
        m.path ≠ m'.path ∧ m.toString ≠ m'.toString) ↔
      ∀ m ∈ config, ∀ m' ∈ config, m.words = m'.words → m = m' := by
  constructor
  · intro hdist m hc m' hc' hwords
    obtain ⟨n, hn⟩ := (exists_live_iff hm hkeys).2 hc
    obtain ⟨n', hn'⟩ := (exists_live_iff hm hkeys).2 hc'
    by_contra hne
    have hnum : n ≠ n' := by
      rintro rfl
      exact hne (Option.some.inj (hn.symm.trans hn'))
    exact (hdist n m n' m' hn hn' hnum).1 (path_eq_iff.2 hwords)
  · intro hwords n m n' m' hn hn' hnum
    have hne : m.words ≠ m'.words := by
      intro heq
      obtain rfl := hwords m ((exists_live_iff hm hkeys).1 ⟨n, hn⟩) m'
        ((exists_live_iff hm hkeys).1 ⟨n', hn'⟩) heq
      exact hnum (hm.live_inj hn hn')
    exact ⟨mt path_eq_iff.1 hne, mt toString_eq_iff.1 hne⟩

/-- **A message of a feed** goes to the hub once for each entry with the feed's words. -/
theorem card_forwarded (hm : h.Matched subTask) (hkeys : ∀ arg, arg ∈ h.map ↔ arg ∈ config) :
    (h.forwarded f.path data).card = (config.toFinset.filter fun m => m.words = f.words).card := by
  have hlive : h.live.entries.map (fun e => e.2) = h.map.keys.val := hm.live_values
  have hconfig : h.map.keys = config.toFinset := by
    ext arg
    rw [Finmap.mem_keys, hkeys, List.mem_toFinset]
  unfold DynamicConfigHandler.forwarded
  rw [Multiset.card_map, hlive, hconfig]
  simp only [path_eq_iff]
  rfl

theorem fst_of_mem_forwarded {item : String × String × Bytes} (hi : item ∈ h.forwarded f.path data) :
    item.1 = f.toString := by
  obtain ⟨m, hmem, rfl⟩ := Multiset.mem_map.1 hi
  exact toString_eq_iff.2 (path_eq_iff.1 (Multiset.mem_filter.1 hmem).2)

/-- **An item of a feed** goes once to a session that the hub lists under the feed's name, and
to no other. -/
theorem card_sent {item : String × String × Bytes} (hi : item ∈ h.forwarded f.path data) (x : Crates)
    (ms : List HubMsg) (id : ℕ) :
    ((dataHander x item.1 item.2.1 item.2.2 (Hub.run x ms)).2.filter fun m => m.1 = ⟨id⟩).card =
      if ((Hub.run x ms).channel id f.toString).isSome then 1 else 0 := by
  rw [filter_dataHander (hubOK_run x ms), fst_of_mem_forwarded hi]
  split
  · exact Multiset.card_singleton _
  · exact Multiset.card_zero

end tasks

/-- **Names of topics.** Two values have one name exactly when they have the same words,
and are then the same if they also have the same layout. After `new` and any calls of
`handle_event` no two live tasks share an endpoint or a symbol if and only if no two
entries of the last configuration that could be read have the same words. A message
published on the endpoint of a value goes to the hub once for each entry with its words,
and each time, in whatever state the hub is, once to the sessions it lists under the value's
name, which have subscribed to it, and to no others. -/
theorem names_clash_iff (hnew : DynamicConfigHandler.new parse o content = some h₀)
    (hr : Run (ConfigStep parse) h₀ us h) :
    (∀ m m' : MarketDataArg, (m.toString = m'.toString ↔ m.words = m'.words) ∧
      (m.toString = m'.toString → m.layout = m'.layout → m = m')) ∧
    ∃ first, content.bind parse = some first ∧
      ((∀ n m n' m', h.live.lookup n = some m → h.live.lookup n' = some m' → n ≠ n' →
          m.path ≠ m'.path ∧ m.toString ≠ m'.toString) ↔
        ∀ m ∈ lastGood parse first us, ∀ m' ∈ lastGood parse first us,
          m.words = m'.words → m = m') ∧
      ∀ (f : MarketDataArg) (data : Bytes),
        (h.forwarded f.path data).card =
          ((lastGood parse first us).toFinset.filter fun m => m.words = f.words).card ∧
        ∀ item ∈ h.forwarded f.path data, ∀ x ms id,
          ((dataHander x item.1 item.2.1 item.2.2 (Hub.run x ms)).2.filter
              fun m => m.1 = ⟨id⟩).card =
            (if ((Hub.run x ms).channel id f.toString).isSome then 1 else 0) ∧
          (((Hub.run x ms).channel id f.toString).isSome → Subscribed (answered x ms) id f.toString) := by
  obtain ⟨first, hfirst, hm, hkeys⟩ := mirrors_new hnew hr
  refine ⟨fun m m' => ⟨toString_eq_iff, fun hname hlayout => ?_⟩, first, hfirst,
    distinct_iff hm hkeys, fun f data => ⟨card_forwarded hm hkeys, ?_⟩⟩
  · exact eq_of_words (toString_eq_iff.1 hname) hlayout
  · intro item hi x ms id
    refine ⟨card_sent hi x ms id, fun hin => ?_⟩
    obtain ⟨tx, htx⟩ := Option.isSome_iff_exists.1 hin
    exact (hubOK_run x ms).sound id f.toString tx htx

/-- A configuration file with the given entries. -/
def configText (entries : List MarketDataArg) : String :=
  "\x7b\"ipcs\":[" ++ ",".intercalate (entries.map fun m => flatJson
    [("exchange", .text m.exchange), ("marketType", .text m.marketType), ("symbol", .text m.symbol),
      ("messageType", .text m.msgType)]) ++ "]\x7d"

/-- The candlesticks of one minute of a pair. -/
def candlestick60 : MarketDataArg := ⟨"binance", "spot", "BTCUSDT", "candlestick@60"⟩

/-- The candlesticks of a symbol with a `_`. -/
def candlestickSymbol : MarketDataArg := ⟨"binance", "spot", "BTCUSDT_60", "candlestick"⟩

/-- The trades and the candlesticks of a pair have different endpoints. -/
theorem names_clash_btc : ∃ h₀,
    DynamicConfigHandler.new (fun _ => some [btcTrade, candlestick60]) ⟨default, default⟩
        (some (configText [btcTrade, candlestick60])) = some h₀ ∧
      ∀ n m n' m', h₀.live.lookup n = some m → h₀.live.lookup n' = some m' → n ≠ n' →
        m.path ≠ m'.path ∧ m.toString ≠ m'.toString := by
  have hnew : DynamicConfigHandler.new (fun _ => some [btcTrade, candlestick60]) ⟨default, default⟩
      (some (configText [btcTrade, candlestick60])) = some (DynamicConfigHandler.follow
        ⟨default, default⟩ [btcTrade, candlestick60] Pool.empty) := rfl
  obtain ⟨-, first, hfirst, hdist, -⟩ := names_clash_iff hnew Run.nil
  obtain rfl : [btcTrade, candlestick60] = first := Option.some.inj hfirst
  have hwords : ∀ m ∈ [btcTrade, candlestick60], ∀ m' ∈ [btcTrade, candlestick60],
      m.words = m'.words → m = m' := by decide +kernel
  exact ⟨_, hnew, hdist.2 hwords⟩

/-- **A symbol with a `_`** has the name of another symbol with a period: two tasks have
one endpoint, and every message goes to the hub twice. -/
theorem names_clash_candlestick :
    ¬ (∀ m m' : MarketDataArg, m ≠ m' → m.toString ≠ m'.toString) ∧
      ∃ h n n', DynamicConfigHandler.new (fun _ => some [candlestick60, candlestickSymbol])
          ⟨default, default⟩ (some (configText [candlestick60, candlestickSymbol])) = some h ∧
        n ≠ n' ∧ h.live.lookup n = some candlestick60 ∧ h.live.lookup n' = some candlestickSymbol ∧
        candlestick60.path = candlestickSymbol.path ∧
        (h.forwarded candlestick60.path []).card = 2 := by
  have hne : candlestick60 ≠ candlestickSymbol := by decide
  have hwords : candlestick60.words = candlestickSymbol.words := by decide +kernel
  have hm : Pool.Matched subTask (DynamicConfigHandler.follow ⟨default, default⟩
      [candlestick60, candlestickSymbol] Pool.empty) :=
    matched_follow ⟨Pool.held_empty, Pool.noOrphan_empty⟩
  have hnew : DynamicConfigHandler.new (fun _ => some [candlestick60, candlestickSymbol])
      ⟨default, default⟩ (some (configText [candlestick60, candlestickSymbol])) =
        some (DynamicConfigHandler.follow ⟨default, default⟩ [candlestick60, candlestickSymbol]
          Pool.empty) := rfl
  obtain ⟨n, hn⟩ := (exists_live_iff hm fun arg => mem_follow).2 List.mem_cons_self
  obtain ⟨n', hn'⟩ := (exists_live_iff hm fun arg => mem_follow).2
    (List.mem_cons_of_mem _ List.mem_cons_self)
  refine ⟨fun hall => hall _ _ hne (toString_eq_iff.2 hwords), _, n, n', hnew, ?_, hn, hn',
    path_eq_iff.2 hwords, ?_⟩
  · rintro rfl
    exact hne (Option.some.inj (hn.symm.trans hn'))
  · have hall : ∀ m ∈ [candlestick60, candlestickSymbol].toFinset, m.words = candlestick60.words := by
      simp [hwords]
    rw [card_forwarded hm fun arg => mem_follow, Finset.filter_true_of_mem hall]
    exact List.toFinset_card_of_nodup (by simpa using hne)

end CryptoMarket.Replay
