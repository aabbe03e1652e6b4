import CryptoMarket.Integration.Writer

/-!
# Integration server: messages without records

The parser of a message type may return an error, or an empty list. An error panics in
the blocking task, and through its join in the thread; an empty list panics only in the
arm for `BBO`, at `swap_remove(0)`. A record that does not convert or serialise, and a
write that fails, are skipped.

* `dataVec_eq_ite`: the messages that stop the thread, and the `data_vec` of the others.
* `written_bad_iff`: every channel gets what it would get without the messages that have
  no records exactly when nothing is to be published after a message that stops the thread.
-/

namespace CryptoMarket.Integration

variable {x : Libs} {mq : Mq} {ch : Channel x} {msg : Message x} {msgs : List (Message x)}

/-- The parser of the message type returns records. -/
def Channel.hasRecords (ch : Channel x) (msg : Message x) : Bool := !((parsed ch msg).getD []).isEmpty

/-- The messages on which the thread panics: the parser returns an error, or an empty
list of best offers. -/
def Channel.stops (ch : Channel x) (msg : Message x) : Bool :=
  (parsed ch msg).isNone || ch.msgType == .bbo && !ch.hasRecords msg

/-- The entries that the arm of the message type publishes of a message. -/
def Channel.publishes (ch : Channel x) (msg : Message x) : List (String × Bytes) :=
  publishable (ch.seen ((parsed ch msg).getD []))

theorem publishes_eq_nil (h : ch.hasRecords msg = false) : ch.publishes msg = [] := by
  have hrecords : (parsed ch msg).getD [] = [] := by simpa [Channel.hasRecords] using h
  unfold Channel.publishes Channel.seen
  rw [hrecords]
  split <;> rfl

theorem hasRecords_of_stops (h : ch.stops msg = true) : ch.hasRecords msg = false := by
  unfold Channel.stops at h
  cases hp : parsed ch msg with
  | none => simp [Channel.hasRecords, hp]
  | some records =>
    rw [hp] at h
    simp only [Option.isNone_some, Bool.false_or, Bool.and_eq_true, Bool.not_eq_true'] at h
    exact h.2

/-! ## The arms -/

theorem dataVec_of_none (hp : parsed ch msg = none) : dataVec ch msg = none := by
  unfold parsed at hp
  unfold dataVec
  cases hm : ch.msgType with
  | bbo =>
    simp only [hm] at hp ⊢
    rw [Option.map_eq_none_iff.1 hp]
  | trade | l2Event | l2TopK | candlestick | fundingRate =>
    simp only [hm] at hp ⊢
    exact Option.map_eq_none_iff.2 (Option.map_eq_none_iff.1 hp)
  | other name => rfl

/-- An empty list: `swap_remove(0)` in the arm for `BBO`, nothing to do in the others. -/
theorem dataVec_of_nil (hp : parsed ch msg = some []) :
    dataVec ch msg = if ch.msgType = .bbo then none else some [] := by
  unfold parsed at hp
  unfold dataVec
  cases hm : ch.msgType with
  | bbo =>
    simp only [hm] at hp ⊢
    obtain ⟨l, hl, hnil⟩ := Option.map_eq_some_iff.1 hp
    rw [hl, List.map_eq_nil_iff.1 hnil]
    rfl
  | trade | l2Event | l2TopK | candlestick | fundingRate =>
    simp only [hm] at hp ⊢
    obtain ⟨l, hl, hnil⟩ := Option.map_eq_some_iff.1 hp
    rw [hl, List.map_eq_nil_iff.1 hnil]
    rfl
  | other name => simp only [hm] at hp; cases hp

/-- **The `data_vec` of any message.** -/
theorem dataVec_eq_ite (ch : Channel x) (msg : Message x) :
    dataVec ch msg = if ch.stops msg then none else some (ch.publishes msg) := by
  cases hp : parsed ch msg with
  | none => simp [dataVec_of_none hp, Channel.stops, hp]
  | some records =>
    by_cases hne : records = []
    · subst hne
      have hr : ch.hasRecords msg = false := by simp [Channel.hasRecords, hp]
      rw [dataVec_of_nil hp, publishes_eq_nil hr]
      by_cases hbbo : ch.msgType = .bbo <;> simp [Channel.stops, hp, hr, hbbo]
    · have hr : ch.hasRecords msg = true := by simpa [Channel.hasRecords, hp] using hne
      rw [dataVec_eq hp hne]
      simp [Channel.stops, hp, hr, Channel.publishes]

/-! ## The thread -/

theorem createWriterThread_of_stops (hs : ch.stops msg = true) (writers : Writers) :
    createWriterThread mq ch (msg :: msgs) writers = (false, writers) := by
  simp only [createWriterThread, dataVec_eq_ite, if_pos hs]

/-- A message with nothing to publish that does not stop the thread changes nothing. -/
theorem createWriterThread_of_silent (hs : ch.stops msg = false) (hsilent : ch.publishes msg = [])
    (writers : Writers) :
    createWriterThread mq ch (msg :: msgs) writers = createWriterThread mq ch msgs writers := by
  have hv : dataVec ch msg = some [] := by rw [dataVec_eq_ite, hs, hsilent]; rfl
  simp only [createWriterThread, hv, sendAll]

/-- **Nothing to publish, nothing written**, whether the thread stops or not. -/
theorem createWriterThread_silent : ∀ (msgs : List (Message x)) (writers : Writers),
    (∀ msg ∈ msgs, ch.publishes msg = []) → (createWriterThread mq ch msgs writers).2 = writers := by
  intro msgs
  induction msgs with
  | nil => intro writers _; rfl
  | cons msg msgs ih =>
    intro writers hall
    cases hs : ch.stops msg with
    | true => rw [createWriterThread_of_stops hs]
    | false =>
      rw [createWriterThread_of_silent hs (hall msg List.mem_cons_self)]
      exact ih writers fun m hm => hall m (List.mem_cons_of_mem _ hm)

/-- The messages after one that stops the thread have nothing to publish. -/
def Channel.NothingAfterStop (ch : Channel x) (msgs : List (Message x)) : Prop :=
  msgs.Pairwise fun msg later => ch.stops msg = true → ch.publishes later = []

/-- If nothing is to be published after a stop, the messages without records can be left
out, whatever the queue answers. -/
theorem createWriterThread_filter (mq : Mq) : ∀ (msgs : List (Message x)) (writers : Writers),
    ch.NothingAfterStop msgs →
    (createWriterThread mq ch msgs writers).2 =
      (createWriterThread mq ch (msgs.filter ch.hasRecords) writers).2 := by
  intro msgs
  induction msgs with
  | nil => intro writers _; rfl
  | cons msg msgs ih =>
    intro writers hcond
    obtain ⟨hhead, htail⟩ := List.pairwise_cons.1 hcond
    cases hs : ch.stops msg with
    | true =>
      have hrest : ∀ m ∈ msgs.filter ch.hasRecords, ch.publishes m = [] := fun m hm =>
        hhead m (List.mem_of_mem_filter hm) hs
      rw [createWriterThread_of_stops hs, List.filter_cons, hasRecords_of_stops hs]
      exact (createWriterThread_silent _ writers hrest).symm
    | false =>
      cases hr : ch.hasRecords msg with
      | false =>
        rw [createWriterThread_of_silent hs (publishes_eq_nil hr), List.filter_cons, hr]
        exact ih writers htail
      | true =>
        have hv : dataVec ch msg = some (ch.publishes msg) := by rw [dataVec_eq_ite, hs]; rfl
        rw [List.filter_cons, hr, if_pos rfl]
        simp only [createWriterThread, hv]
        -- both runs send the same entries, and go on from the same writers
        cases hsend : sendAll mq ch msg (ch.publishes msg) writers with
        | mk ended writers' =>
          cases ended with
          | false => rfl
          | true => exact ih writers' htail

/-- A queue that works tells whether anything was published. -/
theorem publishes_of_written_eq (hmq : mq.Works) {writers : Writers}
    (hgood : ∀ msg ∈ msgs, ch.hasRecords msg = true)
    (heq : ∀ key, (createWriterThread mq ch msgs writers).2.written key = writers.written key) :
    ∀ msg ∈ msgs, ch.publishes msg = [] := by
  have hparsed : ∀ msg ∈ msgs, ∃ records, parsed ch msg = some records ∧ records ≠ [] := by
    intro msg hm
    have hr := hgood msg hm
    cases hp : parsed ch msg with
    | none => simp [Channel.hasRecords, hp] at hr
    | some records => exact ⟨records, rfl, by simpa [Channel.hasRecords, hp] using hr⟩
  obtain ⟨writers', hrun, hw⟩ := written_createWriterThread hmq msgs writers hparsed
  intro msg hm
  refine List.eq_nil_iff_forall_not_mem.2 fun p hp => ?_
  -- the channel of an entry would have grown
  have hkey := heq (ch.key msg p.1)
  rw [hrun, hw, List.append_right_eq_self, List.flatMap_eq_nil_iff] at hkey
  have hnil := hkey msg hm
  rw [← pickData_publishable] at hnil
  have hmem : p.2 ∈ ch.pickData msg (ch.key msg p.1) (ch.publishes msg) :=
    List.mem_filterMap.2 ⟨p, hp, if_pos rfl⟩
  unfold Channel.publishes at hmem
  rw [hnil] at hmem
  cases hmem

/-- If the messages without records can be left out of a run on a queue that works,
nothing is to be published after a stop. -/
theorem nothingAfterStop_of_written_eq (hmq : mq.Works) : ∀ (msgs : List (Message x)) (writers : Writers),
    (∀ key, (createWriterThread mq ch msgs writers).2.written key =
      (createWriterThread mq ch (msgs.filter ch.hasRecords) writers).2.written key) →
    ch.NothingAfterStop msgs := by
  intro msgs
  induction msgs with
  | nil => intro writers _; exact List.Pairwise.nil
  | cons msg msgs ih =>
    intro writers heq
    cases hs : ch.stops msg with
    | true =>
      rw [createWriterThread_of_stops hs, List.filter_cons, hasRecords_of_stops hs] at heq
      -- the messages with records come to nothing, and the others have nothing
      have hrecords : ∀ m ∈ msgs.filter ch.hasRecords, ch.publishes m = [] :=
        publishes_of_written_eq hmq (fun m hm => List.of_mem_filter hm) fun key => (heq key).symm
      have hall : ∀ m ∈ msgs, ch.publishes m = [] := by
        intro m hm
        cases hr : ch.hasRecords m with
        | true => exact hrecords m (List.mem_filter.2 ⟨hm, hr⟩)
        | false => exact publishes_eq_nil hr
      exact List.pairwise_cons.2 ⟨fun m hm _ => hall m hm,
        List.pairwise_of_forall_mem_list fun _ _ m hm _ => hall m hm⟩
    | false =>
      refine List.pairwise_cons.2 ⟨fun m _ hstop => absurd hstop (by simp [hs]), ?_⟩
      cases hr : ch.hasRecords msg with
      | false =>
        rw [createWriterThread_of_silent hs (publishes_eq_nil hr), List.filter_cons, hr] at heq
        exact ih writers heq
      | true =>
        have hv : dataVec ch msg = some (ch.publishes msg) := by rw [dataVec_eq_ite, hs]; rfl
        obtain ⟨writers', hsend, -⟩ := written_sendAll hmq ch msg (ch.publishes msg) writers
        rw [List.filter_cons, hr, if_pos rfl] at heq
        simp only [createWriterThread, hv, hsend] at heq
        exact ih writers' heq

/-- **A bad message.** On every queue each channel gets what it would get without the
messages whose parser returns an error or an empty list, if and only if nothing is to be
published after a message that stops the thread. -/
theorem written_bad_iff (ch : Channel x) (msgs : List (Message x)) :
    (∀ (mq : Mq) (key : String), (createWriterThread mq ch msgs ∅).2.written key =
      (createWriterThread mq ch (msgs.filter ch.hasRecords) ∅).2.written key) ↔
      msgs.Pairwise fun msg later => ch.stops msg = true → ch.publishes later = [] := by
  constructor
  · intro hall
    exact nothingAfterStop_of_written_eq workingMq_works msgs ∅ (hall workingMq)
  · intro hcond mq key
    rw [createWriterThread_filter mq msgs ∅ hcond]

/-! ## An answer between two trades -/

/-- The crates on runs in which the trade parser fails on the exchange's answer to a
subscription. -/
def tradesAndAnswers : Libs :=
  { twoPairs with
    parseTrade := fun _ _ json =>
      if json = "\x7b\"result\":null,\"id\":1\x7d" then none else some [("BTCUSDT", [1])] }

/-- The thread for the trades. -/
def tradeChannel : Channel tradesAndAnswers := ⟨"binance", "spot", .trade, ""⟩

/-- The answer, and a trade. -/
def answerAndTrade : List (Message tradesAndAnswers) :=
  [⟨"binance", "spot", .trade, 1660000000000, "\x7b\"result\":null,\"id\":1\x7d"⟩,
    ⟨"binance", "spot", .trade, 1660000000100, "\x7b\"s\":\"BTCUSDT\"\x7d"⟩]

/-- **After an answer nothing is published**: the trade behind it is lost. -/
theorem not_written_after_bad :
    ¬ ∀ (mq : Mq) (key : String), (createWriterThread mq tradeChannel answerAndTrade ∅).2.written key =
      (createWriterThread mq tradeChannel (answerAndTrade.filter tradeChannel.hasRecords) ∅).2.written
        key := by
  intro hall
  have heq := hall workingMq "binance_spot_trade_BTCUSDT"
  revert heq
  decide

end CryptoMarket.Integration
