import CryptoMarket.Lib.Calendar
import CryptoMarket.Lib.Path
import CryptoMarket.Integration.Names

/-!
# Replay server: the download of a day

`market_data_file.rs`: a request for `/file` names a channel and how many days back its
recording is, and gets the file of that day under the data directory. The strings of the
request go into the path as they are.

* `isSome_marketDataPath_iff`: the request panics exactly when its days do not fit a
  duration or lead out of the calendar.
* `stem_eq_ipc_iff`: the file is the recorder's exactly when the request has no period.
* `opened_inside_iff`: the file is in the directory of a day exactly when no text of the
  request has a `/` and the year has four digits.
-/

namespace CryptoMarket.Replay

/-- The body of a download request. -/
structure Params where
  exchange : String
  marketType : String
  msgType : String
  symbol : String
  period : Option String
  elapse : Option Int64
  deriving DecidableEq, Repr

/-- A file `<name>.csv` in the directory of a date. -/
def datedPath (base date name : String) : String := base ++ "/" ++ date ++ "/" ++ name ++ ".csv"

variable {calendar : Calendar}

/-- `time` in `market_data_path`: none where the arithmetic panics. -/
def Params.time (now : DateTime calendar) (params : Params) : Option String :=
  match params.elapse with
  | some elapse =>
    (Duration.days elapse).bind fun days => (now.sub days).map fun time => time.date.format
  | none => some now.date.format

/-- The last `symbol` in `market_data_path`: only an empty period adds anything to it. -/
def Params.stem (params : Params) : String :=
  let period := match params.period with
    | some p => if p = "" then "_" else ""
    | none => ""
  params.exchange ++ "_" ++ params.marketType ++ "_" ++ params.msgType ++ "_" ++ params.symbol ++ period

/-- `market_data_path`: none where it panics. -/
def marketDataPath (now : DateTime calendar) (base : String) (params : Params) : Option String :=
  (params.time now).map fun time => datedPath base time params.stem

/-- What a download answers with: two headers and the file. -/
structure Download where
  contentType : String
  contentDisposition : String
  body : Bytes

/-- `http_market_data`: the path it opens and the answer, an error with its status or a
download; none where it panics. -/
def httpMarketData (now : DateTime calendar) (marketDataDir : String)
    (openFile : String → Except String Bytes) (params : Params) :
    Option (String × Except (ℕ × String) Download) :=
  (marketDataPath now marketDataDir params).map fun path =>
    (path, match openFile path with
      | .ok file => .ok ⟨"application/octet-stream", "attachment; filename=\"market-data\"", file⟩
      | .error err => .error (404, "File not found: " ++ err))

/-- The name that the recorder's `main` builds for the channel of a request, whose period is
an argument unless it is empty. -/
def Params.ipc (params : Params) : String :=
  Integration.recorderIpc params.exchange params.marketType params.msgType params.symbol
    (params.period.bind Integration.periodArg)

/-- The instant a request is about: so many days before `now`. -/
def Params.instant (now : ℤ) (params : Params) : ℤ :=
  now - (params.elapse.getD 0).toInt * millisPerDay * 1000000

/-- The days of a request fit a duration, and the calendar has the instant. -/
def Params.InCalendar (now : DateTime calendar) (params : Params) : Prop :=
  ∀ elapse ∈ params.elapse, (-maxDays ≤ elapse.toInt ∧ elapse.toInt ≤ maxDays) ∧
    calendar.first ≤ params.instant now.nanos ∧ params.instant now.nanos ≤ calendar.last

/-- The calendar of the crate, at a place where it is 5 July 2022. -/
def july : Calendar where
  first := -8334632851200000000000
  last := 8210298412799999999999
  localDate _ := ⟨2022, 7, 5, by decide, by decide⟩

/-- Midnight of that day, UTC. -/
def julyMorning : DateTime july := ⟨1656979200000000000, by decide⟩

/-- A request for the trades of today. -/
def tradesToday : Params := ⟨"binance", "spot", "trade", "BTCUSDT", none, none⟩

/-- A request for the candles of a minute of today. -/
def candlesToday : Params := ⟨"binance", "spot", "candlestick", "BTCUSDT", some "60", none⟩

example : marketDataPath julyMorning "./record" tradesToday =
    some "./record/20220705/binance_spot_trade_BTCUSDT.csv" := by decide

variable {now : DateTime calendar} {base path : String} {params : Params}

/-! ## The date -/

/-- **The date of a request**, when there is one. -/
theorem time_eq_some_iff {time : String} : params.time now = some time ↔
    params.InCalendar now ∧ (calendar.localDate (params.instant now.nanos)).format = time := by
  unfold Params.time Params.InCalendar Params.instant
  cases params.elapse with
  | none =>
    have h0 : (0 : Int64).toInt = 0 := by decide
    simp [DateTime.date, h0]
  | some elapse =>
    simp only [Option.mem_def, Option.some.injEq, forall_eq', Option.getD_some]
    rw [← Duration.days_isSome_iff]
    cases hdays : Duration.days elapse with
    | none => simp
    | some days =>
      have hmillis := Duration.days_eq_some hdays
      unfold DateTime.sub
      rw [Option.bind_some, hmillis]
      split
      · next hin =>
        have hdays' : (some days : Option Duration).isSome := rfl
        rw [Option.map_some, Option.some.injEq, and_iff_right (⟨hdays', hin⟩ : _ ∧ _)]
        rfl
      · next hout => exact iff_of_false (by simp) fun h => hout h.1.2

theorem isSome_time_iff : (params.time now).isSome ↔ params.InCalendar now := by
  rw [Option.isSome_iff_exists]
  constructor
  · rintro ⟨time, htime⟩
    exact (time_eq_some_iff.1 htime).1
  · intro hin
    exact ⟨_, time_eq_some_iff.2 ⟨hin, rfl⟩⟩

/-- **When the arithmetic panics.** A path is returned if and only if the request has no
`elapse`, or its days fit a duration and the calendar has the instant they lead to. -/
theorem isSome_marketDataPath_iff (now : DateTime calendar) (base : String) (params : Params) :
    (marketDataPath now base params).isSome ↔
      ∀ elapse ∈ params.elapse, (-106751991167 ≤ elapse.toInt ∧ elapse.toInt ≤ 106751991167) ∧
        calendar.first ≤ now.nanos - elapse.toInt * 86400000000000 ∧
        now.nanos - elapse.toInt * 86400000000000 ≤ calendar.last := by
  rw [marketDataPath, Option.isSome_map, isSome_time_iff]
  unfold Params.InCalendar Params.instant
  refine forall₂_congr fun elapse helapse => ?_
  rw [Option.mem_def.1 helapse, Option.getD_some]
  have hday : millisPerDay * 1000000 = 86400000000000 := rfl
  rw [mul_assoc, hday]
  rfl

/-- **Requests that panic**: the largest number of days, and one that only leads out of the
calendar. -/
theorem marketDataPath_panics :
    marketDataPath julyMorning "./record" { tradesToday with elapse := some Int64.maxValue } = none ∧
      marketDataPath julyMorning "./record" { tradesToday with elapse := some (-100000000) } = none := by
  decide

/-! ## The name -/

theorem slash_not_mem_format {date : NaiveDate} : '/' ∉ date.format.toList := by
  intro hmem
  rcases isDigit_or_sign_of_mem_format hmem with h | h | h <;> exact absurd h (by decide)

theorem marketDataPath_eq_some (h : marketDataPath now base params = some path) :
    params.InCalendar now ∧
      path = datedPath base (calendar.localDate (params.instant now.nanos)).format params.stem := by
  obtain ⟨time, htime, rfl⟩ := Option.map_eq_some_iff.1 h
  obtain ⟨hin, rfl⟩ := time_eq_some_iff.1 htime
  exact ⟨hin, rfl⟩

/-- The path tells the date and the name. -/
theorem datedPath_inj {date date' name name' : String} (hdate : '/' ∉ date.toList)
    (hdate' : '/' ∉ date'.toList) :
    datedPath base date name = datedPath base date' name' ↔ date = date' ∧ name = name' := by
  refine ⟨fun h => ?_, fun h => by rw [h.1, h.2]⟩
  have hcut : date ++ "/" ++ name = date' ++ "/" ++ name' := by
    simp only [datedPath, String.append_assoc, String.append_right_inj] at h
    simp only [← String.append_assoc, String.append_left_inj] at h
    exact h
  have hsplit : split '/' (date ++ "/" ++ name) = split '/' (date' ++ "/" ++ name') := by rw [hcut]
  have happend : ∀ a b : String, split '/' (a ++ "/" ++ b) = split '/' a ++ split '/' b :=
    split_append_sep '/'
  rw [happend, happend, split_of_not_mem hdate, split_of_not_mem hdate'] at hsplit
  obtain ⟨hd, hn⟩ := List.cons.inj hsplit
  exact ⟨hd, split_inj.1 hn⟩

/-- What the name would have to be for the path to be the recorder's file. -/
theorem stem_eq_ipc : params.stem = params.ipc ↔ params.period = none := by
  unfold Params.stem Params.ipc Integration.recorderIpc
  cases params.period with
  | none => simp
  | some p =>
    by_cases hp : p = ""
    · -- an empty period adds `_`, and the recorder has no argument for it
      simp [Integration.periodArg, hp]
    · -- any other period is left out
      simp only [Integration.periodArg, hp, if_false, Option.bind_some, String.append_empty,
        reduceCtorEq, iff_false]
      intro heq
      have := congrArg String.length heq
      simp at this

/-- **The recorder's file.** The path of a request is that of the file that the recorder of
the channel writes, whose entries all have that name, if and only if the request has no
period. -/
theorem stem_eq_ipc_iff (now : DateTime calendar) (base path : String) (params : Params)
    (h : marketDataPath now base params = some path) (started connected : Bool)
    (received : List (Except String (Bytes × Bool))) :
    ((∃ date, '/' ∉ date.toList ∧ path = datedPath base date params.ipc) ∧
        ∀ entry ∈ Integration.createWriteFileThread started connected params.ipc received,
          entry.filename = params.ipc) ↔
      params.period = none := by
  obtain ⟨-, hpath⟩ := marketDataPath_eq_some h
  have hentries : ∀ entry ∈ Integration.createWriteFileThread started connected params.ipc received,
      entry.filename = params.ipc := fun entry hentry => Integration.filename_of_mem hentry
  rw [and_iff_left hentries, ← stem_eq_ipc]
  constructor
  · rintro ⟨date, hdate, hfile⟩
    rw [hpath] at hfile
    exact ((datedPath_inj slash_not_mem_format hdate).1 hfile).2
  · intro hstem
    exact ⟨_, slash_not_mem_format, by rw [hpath, hstem]⟩

/-- The trades of today are in the recorder's file. -/
theorem stem_eq_ipc_tradesToday :
    ((∃ date, '/' ∉ date.toList ∧
          "./record/20220705/binance_spot_trade_BTCUSDT.csv" = datedPath "./record" date tradesToday.ipc) ∧
        ∀ entry ∈ Integration.createWriteFileThread true true tradesToday.ipc [.ok ([1], true)],
          entry.filename = tradesToday.ipc) ↔
      tradesToday.period = none :=
  stem_eq_ipc_iff julyMorning "./record" _ tradesToday (by decide) true true [.ok ([1], true)]

/-- **Candles of a minute**: the file of the path has no period, and the recorder's has it.
For an empty period it is the other way round. -/
theorem stem_ne_ipc_candles :
    (marketDataPath julyMorning "./record" candlesToday =
        some "./record/20220705/binance_spot_candlestick_BTCUSDT.csv" ∧
      candlesToday.ipc = "binance_spot_candlestick_BTCUSDT_60" ∧
      ¬ ∃ date, '/' ∉ date.toList ∧
        "./record/20220705/binance_spot_candlestick_BTCUSDT.csv" =
          datedPath "./record" date candlesToday.ipc) ∧
    { tradesToday with period := some "" }.stem = "binance_spot_trade_BTCUSDT_" ∧
    { tradesToday with period := some "" }.ipc = "binance_spot_trade_BTCUSDT" := by
  refine ⟨⟨by decide, by decide, ?_⟩, by decide, by decide⟩
  rintro ⟨date, hdate, hpath⟩
  have hfile : "./record/20220705/binance_spot_candlestick_BTCUSDT.csv" =
      datedPath "./record" "20220705" candlesToday.stem := by decide
  rw [hfile, datedPath_inj (by decide) hdate] at hpath
  exact absurd hpath.2 (by decide)

/-! ## The directory -/

theorem slash_not_mem_stem : '/' ∉ params.stem.toList ↔
    ∀ field ∈ [params.exchange, params.marketType, params.msgType, params.symbol], '/' ∉ field.toList := by
  have hbar : '/' ∉ "_".toList := by decide
  have hperiod : '/' ∉ (match params.period with
      | some p => if p = "" then "_" else ""
      | none => "").toList := by
    split
    · split <;> decide
    · decide
  unfold Params.stem
  simp only [String.toList_append, List.mem_append, hbar, hperiod, or_false, not_or,
    List.forall_mem_cons, List.not_mem_nil, false_implies, implies_true, and_true, and_assoc]

/-- A file of a day is in the directory of the day. -/
theorem resolve_datedPath {date name : String} (hslash : '/' ∉ name.toList) :
    resolve (datedPath base date name) = resolve (base ++ "/" ++ date) ++ [name ++ ".csv"] := by
  have hfile : datedPath base date name = base ++ "/" ++ date ++ "/" ++ (name ++ ".csv") := by
    simp only [datedPath, String.append_assoc]
  rw [hfile]
  refine resolve_file ?_ ?_ ?_
  · intro hempty
    have := congrArg String.length hempty
    simp at this
  · rw [String.toList_append, List.mem_append, not_or]
    exact ⟨hslash, by decide⟩
  · -- the extension is longer than `..`
    intro hname
    have hlen : (name ++ ".csv").length ≤ 2 := by
      simp only [List.mem_cons, List.not_mem_nil, or_false] at hname
      rcases hname with h | h | h <;> rw [h] <;> decide
    have hext : (".csv" : String).length = 4 := by decide
    rw [String.length_append, hext] at hlen
    omega

/-- **Inside the data directory.** The path that a download opens has a date of eight digits
and one more segment, with which it resolves to a file directly in the directory of the
date, if and only if no text of the request has a `/` and the year of its day has at most
four digits; or its arithmetic panics, and nothing is opened. -/
theorem opened_inside_iff (now : DateTime calendar) (base : String)
    (openFile : String → Except String Bytes) (params : Params) :
    (∀ path answer, httpMarketData now base openFile params = some (path, answer) →
      ∃ date name, EightDigits date ∧ '/' ∉ name.toList ∧
        path = base ++ "/" ++ date ++ "/" ++ name ++ ".csv" ∧
        resolve path = resolve (base ++ "/" ++ date) ++ [name ++ ".csv"]) ↔
      (params.InCalendar now →
        (0 ≤ (calendar.localDate (params.instant now.nanos)).year ∧
          (calendar.localDate (params.instant now.nanos)).year ≤ 9999) ∧
        ∀ field ∈ [params.exchange, params.marketType, params.msgType, params.symbol],
          '/' ∉ field.toList) := by
  rw [← eightDigits_format_iff, ← slash_not_mem_stem]
  constructor
  · intro hinside hin
    obtain ⟨answer, hrun⟩ : ∃ answer, httpMarketData now base openFile params = some (datedPath base
        (calendar.localDate (params.instant now.nanos)).format params.stem, answer) := by
      rw [httpMarketData, marketDataPath, time_eq_some_iff.2 ⟨hin, rfl⟩]
      exact ⟨_, rfl⟩
    obtain ⟨date, name, hdate, hname, hpath, -⟩ := hinside _ _ hrun
    have hdate' : '/' ∉ date.toList := fun hmem => absurd (hdate.2 _ hmem) (by decide)
    obtain ⟨rfl, rfl⟩ := (datedPath_inj slash_not_mem_format hdate').1 hpath
    exact ⟨hdate, hname⟩
  · intro hcond path answer hrun
    obtain ⟨path', hpath', heq⟩ := Option.map_eq_some_iff.1 hrun
    obtain ⟨rfl, -⟩ := Prod.mk.inj heq
    obtain ⟨hin, rfl⟩ := marketDataPath_eq_some hpath'
    obtain ⟨hdate, hname⟩ := hcond hin
    exact ⟨_, _, hdate, hname, rfl, resolve_datedPath hname⟩

/-- **An exchange with `..`** gets a file of another directory. -/
theorem opened_outside :
    httpMarketData julyMorning "./record" (fun _ => .ok [1])
        ⟨"../../secret/x", "spot", "trade", "BTCUSDT", none, none⟩ =
      some ("./record/20220705/../../secret/x_spot_trade_BTCUSDT.csv",
        .ok ⟨"application/octet-stream", "attachment; filename=\"market-data\"", [1]⟩) ∧
    resolve "./record/20220705/../../secret/x_spot_trade_BTCUSDT.csv" =
      ["secret", "x_spot_trade_BTCUSDT.csv"] ∧
    ¬ ∃ date name, EightDigits date ∧ '/' ∉ name.toList ∧
      "./record/20220705/../../secret/x_spot_trade_BTCUSDT.csv" =
        "./record" ++ "/" ++ date ++ "/" ++ name ++ ".csv" := by
  refine ⟨rfl, by decide, ?_⟩
  rintro ⟨date, name, hdate, hname, hpath⟩
  have hdate' : '/' ∉ date.toList := fun hmem => absurd (hdate.2 _ hmem) (by decide)
  have hfile : "./record/20220705/../../secret/x_spot_trade_BTCUSDT.csv" =
      datedPath "./record" "20220705" "../../secret/x_spot_trade_BTCUSDT" := by decide
  rw [hfile] at hpath
  obtain ⟨-, rfl⟩ := (datedPath_inj (by decide) hdate').1 hpath
  exact hname (by decide)

end CryptoMarket.Replay
