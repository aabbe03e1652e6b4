import CryptoMarket.Integration.BadMessages
import CryptoMarket.Lib.Run

/-!
# Integration server: from the crawler to the channels

`crawl` (`main.rs`) as communicating threads: a crawler, which sends its messages to the
writer thread, or, for the message type `Other`, its texts to the conversion thread
(`create_conversion_thread`), which makes a message of each and sends it on. The channels
are unbounded. A panic of the writer drops its receiver, so later sends fail; the conversion
thread then panics in turn.

* `pipeline_refines`: in every run, whatever the order of the steps, the writer is where
  `createWriterThread` comes to on the messages that it has taken.
* `published_in_order`: so every channel gets records of its own, in order and each at most
  once; with a queue that works, all but the ones at hand.
* `other_silent`: for a type that the thread does not handle nothing is ever published, and
  the second message already finds no receiver.
-/

namespace CryptoMarket.Integration

/-- Where the writer thread is. -/
inductive WriterAt (x : Libs) where
  /-- At `for msg in rx`. -/
  | receiving
  /-- In the loop over the rest of a `data_vec`. -/
  | sending (msg : Message x) (dataVec : List (String × Bytes))
  /-- All senders are gone. -/
  | finished
  | panicked

/-- Where the conversion thread is. -/
inductive ConversionAt (x : Libs) where
  /-- At `for json in rx_raw`. -/
  | receiving
  /-- At `tx.send`. -/
  | sending (msg : Message x)
  | ended

/-- `Message::new` in the conversion thread, at this time. -/
def Channel.newMessage {x : Libs} (ch : Channel x) (receivedAt : UInt64) (json : String) : Message x :=
  ⟨ch.exchange, ch.marketType, ch.msgType, receivedAt, json⟩

/-- The threads of one `crawl` and the channels between them. -/
structure Pipeline (x : Libs) where
  rxRaw : List String
  conversion : ConversionAt x
  /-- There are no senders of `rx` any more. -/
  closed : Bool
  rx : List (Message x)
  writer : WriterAt x
  writers : Writers

/-- Before the first message. -/
def Pipeline.init (x : Libs) : Pipeline x := ⟨[], .receiving, false, [], .receiving, ∅⟩

/-- The receiver of the writer exists. -/
def WriterAt.Live {x : Libs} : WriterAt x → Prop
  | .receiving | .sending _ _ => True
  | .finished | .panicked => False

/-- What a step is about. -/
inductive PipeLabel (x : Libs) where
  | crawl (msg : Message x)
  /-- The crawler finds no receiver. -/
  | refuse (msg : Message x)
  | text (json : String)
  | convert (receivedAt : UInt64)
  | forward (msg : Message x)
  /-- The conversion thread finds no receiver and panics. -/
  | crash
  | hangUp
  | close
  | take (msg : Message x)
  | write
  | next
  | finish

/-- **The steps of the threads.** -/
inductive PipeStep {x : Libs} (mq : Mq) (ch : Channel x) (s : Pipeline x) : PipeLabel x → Pipeline x → Prop
  | crawl {msg} : s.closed = false → s.writer.Live →
    PipeStep mq ch s (.crawl msg) { s with rx := s.rx ++ [msg] }
  | refuse {msg} : s.closed = false → ¬ s.writer.Live → PipeStep mq ch s (.refuse msg) s
  | text {json} : s.conversion ≠ .ended →
    PipeStep mq ch s (.text json) { s with rxRaw := s.rxRaw ++ [json] }
  | convert {receivedAt json rest} : s.conversion = .receiving → s.rxRaw = json :: rest →
    PipeStep mq ch s (.convert receivedAt)
      { s with rxRaw := rest, conversion := .sending (ch.newMessage receivedAt json) }
  | forward {msg} : s.conversion = .sending msg → s.writer.Live →
    PipeStep mq ch s (.forward msg) { s with conversion := .receiving, rx := s.rx ++ [msg] }
  | crash {msg} : s.conversion = .sending msg → ¬ s.writer.Live →
    PipeStep mq ch s .crash { s with conversion := .ended, rxRaw := [] }
  | hangUp : s.conversion = .receiving → s.rxRaw = [] →
    PipeStep mq ch s .hangUp { s with conversion := .ended }
  | close : s.conversion = .ended → PipeStep mq ch s .close { s with closed := true }
  | take {msg rest v} : s.writer = .receiving → s.rx = msg :: rest → dataVec ch msg = some v →
    PipeStep mq ch s (.take msg) { s with writer := .sending msg v, rx := rest }
  /-- The parser fails, or the message type is not handled. -/
  | takePanic {msg rest} : s.writer = .receiving → s.rx = msg :: rest → dataVec ch msg = none →
    PipeStep mq ch s (.take msg) { s with writer := .panicked, rx := [] }
  | write {msg symbol dataByte v log writers} : s.writer = .sending msg ((symbol, dataByte) :: v) →
    writerMq mq (ch.key msg symbol) s.writers = some (log, writers) →
    PipeStep mq ch s .write { s with
      writer := .sending msg v
      writers := if mq.write (ch.key msg symbol) log dataByte then
        writers.insert (ch.key msg symbol) (log ++ [dataByte]) else writers }
  /-- `create` panics. -/
  | writePanic {msg symbol dataByte v} : s.writer = .sending msg ((symbol, dataByte) :: v) →
    writerMq mq (ch.key msg symbol) s.writers = none →
    PipeStep mq ch s .write { s with writer := .panicked, rx := [] }
  | next {msg} : s.writer = .sending msg [] → PipeStep mq ch s .next { s with writer := .receiving }
  | finish : s.writer = .receiving → s.rx = [] → s.closed = true →
    PipeStep mq ch s .finish { s with writer := .finished }

/-- The messages that went into `rx`. -/
def accepted {x : Libs} (ls : List (PipeLabel x)) : List (Message x) :=
  ls.filterMap fun
    | .crawl msg | .forward msg => some msg
    | _ => none

/-- The messages that the writer has taken. -/
def taken {x : Libs} (ls : List (PipeLabel x)) : List (Message x) :=
  ls.filterMap fun
    | .take msg => some msg
    | _ => none

/-- What the writer does from where it is with these messages still to come: whether it ends
without a panic, and the writers. -/
def WriterAt.run {x : Libs} (mq : Mq) (ch : Channel x) :
    WriterAt x → Writers → List (Message x) → Bool × Writers
  | .receiving, writers, msgs | .finished, writers, msgs => createWriterThread mq ch msgs writers
  | .sending msg v, writers, msgs =>
    match sendAll mq ch msg v writers with
    | (false, writers) => (false, writers)
    | (true, writers) => createWriterThread mq ch msgs writers
  | .panicked, writers, _ => (false, writers)

/-- The entries at hand for a key. -/
def WriterAt.pending {x : Libs} (ch : Channel x) (key : String) : WriterAt x → List Bytes
  | .sending msg v => ch.pickData msg key v
  | _ => []

variable {x : Libs} {mq : Mq} {ch : Channel x} {s s' : Pipeline x} {l : PipeLabel x}
  {ls : List (PipeLabel x)} {msg : Message x} {key : String}

theorem accepted_append (ls ms : List (PipeLabel x)) : accepted (ls ++ ms) = accepted ls ++ accepted ms :=
  List.filterMap_append

theorem taken_append (ls ms : List (PipeLabel x)) : taken (ls ++ ms) = taken ls ++ taken ms :=
  List.filterMap_append

/-! ## The writer and its function -/

/-- **The writer follows its function.** -/
structure Follows (mq : Mq) (ch : Channel x) (ls : List (PipeLabel x)) (s : Pipeline x) : Prop where
  queue : taken ls ++ s.rx <+: accepted ls
  whole : s.writer ≠ .panicked → taken ls ++ s.rx = accepted ls
  run : ∀ msgs, createWriterThread mq ch (taken ls ++ msgs) ∅ = s.writer.run mq ch s.writers msgs

/-- A step of another thread. -/
theorem Follows.other (hok : Follows mq ch ls s) (hrx : s'.rx = s.rx) (hw : s'.writer = s.writer)
    (hws : s'.writers = s.writers) (ha : accepted [l] = []) (ht : taken [l] = []) :
    Follows mq ch (ls ++ [l]) s' := by
  refine ⟨?_, fun hn => ?_, fun msgs => ?_⟩
  · rw [taken_append, accepted_append, ha, ht, List.append_nil, List.append_nil, hrx]
    exact hok.queue
  · rw [taken_append, accepted_append, ha, ht, List.append_nil, List.append_nil, hrx]
    exact hok.whole (hw ▸ hn)
  · rw [taken_append, ht, List.append_nil, hw, hws]
    exact hok.run msgs

/-- A message goes into `rx`. -/
theorem Follows.accept (hok : Follows mq ch ls s) (hlive : s.writer.Live) (hrx : s'.rx = s.rx ++ [msg])
    (hw : s'.writer = s.writer) (hws : s'.writers = s.writers) (ha : accepted [l] = [msg]) (ht : taken [l] = []) :
    Follows mq ch (ls ++ [l]) s' := by
  have hwhole := hok.whole (by rintro h; rw [h] at hlive; exact hlive)
  have hall : taken (ls ++ [l]) ++ s'.rx = accepted (ls ++ [l]) := by
    rw [taken_append, accepted_append, ha, ht, List.append_nil, hrx, ← List.append_assoc, hwhole]
  refine ⟨hall ▸ List.prefix_refl _, fun _ => hall, fun msgs => ?_⟩
  rw [taken_append, ht, List.append_nil, hw, hws]
  exact hok.run msgs

/-- A step of the writer. -/
theorem Follows.work (hok : Follows mq ch ls s) (hn : s.writer ≠ .panicked) (ha : accepted [l] = [])
    (hrx : taken [l] ++ s'.rx = s.rx)
    (hrun : ∀ msgs, s.writer.run mq ch s.writers (taken [l] ++ msgs) = s'.writer.run mq ch s'.writers msgs) :
    Follows mq ch (ls ++ [l]) s' := by
  have hall : taken (ls ++ [l]) ++ s'.rx = accepted (ls ++ [l]) := by
    rw [taken_append, accepted_append, ha, List.append_assoc, hrx, hok.whole hn, List.append_nil]
  refine ⟨hall ▸ List.prefix_refl _, fun _ => hall, fun msgs => ?_⟩
  rw [taken_append, List.append_assoc, hok.run, hrun]

/-- A step on which the writer panics. -/
theorem Follows.panic (hok : Follows mq ch ls s) (hn : s.writer ≠ .panicked) (ha : accepted [l] = [])
    (ht : taken [l] <+: s.rx) (hw : s'.writer = .panicked) (hrx : s'.rx = [])
    (hrun : ∀ msgs, s.writer.run mq ch s.writers (taken [l] ++ msgs) = (false, s'.writers)) :
    Follows mq ch (ls ++ [l]) s' := by
  refine ⟨?_, fun hn' => absurd hw hn', fun msgs => ?_⟩
  · rw [taken_append, accepted_append, ha, hrx, List.append_nil, List.append_nil, ← hok.whole hn]
    exact (List.prefix_append_right_inj _).2 ht
  · rw [taken_append, List.append_assoc, hok.run, hrun, hw]
    rfl

/-- **One step.** -/
theorem follows_step (hok : Follows mq ch ls s) (hst : PipeStep mq ch s l s') :
    Follows mq ch (ls ++ [l]) s' := by
  cases hst with
  | crawl hc hlive => exact hok.accept hlive rfl rfl rfl rfl rfl
  | forward hc hlive => exact hok.accept hlive rfl rfl rfl rfl rfl
  | refuse hc hlive => exact hok.other rfl rfl rfl rfl rfl
  | text hc => exact hok.other rfl rfl rfl rfl rfl
  | convert hc hr => exact hok.other rfl rfl rfl rfl rfl
  | crash hc hlive => exact hok.other rfl rfl rfl rfl rfl
  | hangUp hc hr => exact hok.other rfl rfl rfl rfl rfl
  | close hc => exact hok.other rfl rfl rfl rfl rfl
  | @take msg rest v hw hrx hv =>
    refine hok.work (by simp [hw]) rfl hrx.symm fun msgs => ?_
    rw [hw]
    show createWriterThread mq ch (msg :: msgs) s.writers = _
    rcases hsend : sendAll mq ch msg v s.writers with ⟨_ | _, writers⟩ <;>
      simp only [createWriterThread, hv, WriterAt.run, hsend]
  | @takePanic msg rest hw hrx hv =>
    refine hok.panic (by simp [hw]) rfl ⟨rest, hrx.symm⟩ rfl rfl fun msgs => ?_
    rw [hw]
    show createWriterThread mq ch (msg :: msgs) s.writers = _
    simp only [createWriterThread, hv]
  | @write msg symbol dataByte v log writers hw hmq =>
    refine hok.work (by simp [hw]) rfl rfl fun msgs => ?_
    have hsend : sendAll mq ch msg ((symbol, dataByte) :: v) s.writers =
        sendAll mq ch msg v (if mq.write (ch.key msg symbol) log dataByte then
          writers.insert (ch.key msg symbol) (log ++ [dataByte]) else writers) := by
      simp only [sendAll, hmq]
      split <;> rfl
    rw [hw]
    simp only [WriterAt.run, hsend]
    rfl
  | @writePanic msg symbol dataByte v hw hmq =>
    refine hok.panic (by simp [hw]) rfl (List.nil_prefix) rfl rfl fun msgs => ?_
    rw [hw]
    simp only [WriterAt.run, sendAll, hmq]
  | @next msg hw =>
    refine hok.work (by simp [hw]) rfl rfl fun msgs => ?_
    rw [hw]
    rfl
  | finish hw hrx hc =>
    refine hok.work (by simp [hw]) rfl rfl fun msgs => ?_
    rw [hw]
    rfl

theorem follows_run (h : Run (PipeStep mq ch) (Pipeline.init x) ls s) : Follows mq ch ls s :=
  Run.hist_inv (P := Follows mq ch) ⟨List.prefix_refl _, fun _ => rfl, fun _ => rfl⟩
    (fun _ _ _ _ _ hok hst => follows_step hok hst) h

/-- **The threads compute the function.** In every run, whatever the order of the steps: the
writer has taken the first of the messages that went into its channel, and, as long as it has
not panicked, the rest are in the channel; and `createWriterThread` on the messages taken, and
any more, is what the writer would make of these from where it is. So where it waits for a
message, or has ended, its publishers are those of the function. -/
theorem pipeline_refines (h : Run (PipeStep mq ch) (Pipeline.init x) ls s) :
    taken ls ++ s.rx <+: accepted ls ∧
      (s.writer ≠ .panicked → taken ls ++ s.rx = accepted ls) ∧
      (∀ msgs, createWriterThread mq ch (taken ls ++ msgs) ∅ = s.writer.run mq ch s.writers msgs) ∧
      (s.writer = .receiving ∨ s.writer = .finished →
        createWriterThread mq ch (taken ls) ∅ = (true, s.writers)) ∧
      (s.writer = .panicked → ∀ msgs, createWriterThread mq ch (taken ls ++ msgs) ∅ = (false, s.writers)) := by
  have hok := follows_run h
  refine ⟨hok.queue, hok.whole, hok.run, fun hw => ?_, fun hw msgs => ?_⟩
  · have hrun := hok.run []
    rw [List.append_nil] at hrun
    rcases hw with hw | hw <;> rw [hrun, hw] <;> rfl
  · rw [hok.run, hw]
    rfl

/-- A message with the trades of two pairs, the first of which has been written. -/
def pairsLabels : List (PipeLabel twoPairs) :=
  [.crawl (pairsMessage .trade), .take (pairsMessage .trade), .write]

theorem pairs_from {s : Pipeline twoPairs} (hc : s.closed = false) (hrx : s.rx = []) (hw : s.writer = .receiving) :
    ∃ s', Run (PipeStep workingMq (pairsChannel .trade)) s pairsLabels s' ∧
      s'.writer = .sending (pairsMessage .trade) [("ETHUSDT", [2])] ∧ s'.closed = false ∧ s'.rx = [] := by
  set ch := pairsChannel .trade with hch
  set msg := pairsMessage .trade with hmsg
  have hcrawl : PipeStep workingMq ch s (.crawl msg) { s with rx := s.rx ++ [msg] } :=
    .crawl hc (by rw [hw]; trivial)
  rw [hrx, List.nil_append] at hcrawl
  have htake : PipeStep workingMq ch { s with rx := [msg] } (.take msg) _ :=
    .take hw rfl (v := [("BTCUSDT", [1]), ("ETHUSDT", [2])]) rfl
  obtain ⟨log, writers, hmq⟩ := exists_writerMq workingMq_works (ch.key msg "BTCUSDT") s.writers
  have hwrite : PipeStep workingMq ch
      { s with writer := .sending msg [("BTCUSDT", [1]), ("ETHUSDT", [2])], rx := [] } .write _ := .write rfl hmq
  exact ⟨_, Run.cons hcrawl (Run.cons htake (Run.single hwrite)), rfl, hc, rfl⟩

theorem pairs_run : ∃ s, Run (PipeStep workingMq (pairsChannel .trade)) (Pipeline.init twoPairs) pairsLabels s ∧
    s.writer = .sending (pairsMessage .trade) [("ETHUSDT", [2])] ∧ s.closed = false ∧ s.rx = [] :=
  pairs_from rfl rfl rfl

/-- The message has been taken. -/
theorem pipeline_refines_pairs : ∃ s, Run (PipeStep workingMq (pairsChannel .trade))
    (Pipeline.init twoPairs) pairsLabels s ∧
      [pairsMessage .trade] ++ s.rx = [pairsMessage .trade] ∧
      createWriterThread workingMq (pairsChannel .trade) [pairsMessage .trade] ∅ =
        s.writer.run workingMq (pairsChannel .trade) s.writers [] := by
  obtain ⟨s, hrun, hw, -⟩ := pairs_run
  obtain ⟨-, hwhole, hfun, -⟩ := pipeline_refines hrun
  exact ⟨s, hrun, hwhole (by simp [hw]), hfun []⟩

/-! ## What is published -/

/-- What the arms make of the messages for a key. -/
def due (ch : Channel x) (msgs : List (Message x)) (key : String) : List Bytes :=
  msgs.flatMap fun msg => ch.pickData msg key (ch.publishes msg)

theorem due_append (msgs msgs' : List (Message x)) :
    due ch (msgs ++ msgs') key = due ch msgs key ++ due ch msgs' key := List.flatMap_append

theorem due_singleton : due ch [msg] key = ch.pickData msg key (ch.publishes msg) := List.flatMap_singleton ..

/-- What the arms make of the messages is owed. -/
theorem due_sublist_owed (msgs : List (Message x)) : (due ch msgs key).Sublist (owed ch msgs key) := by
  induction msgs with
  | nil => exact List.Sublist.refl []
  | cons msg msgs ih =>
    have hone : ch.pickData msg key (ch.publishes msg) <+: ch.pick msg key ((parsed ch msg).getD []) := by
      rw [Channel.publishes, pickData_publishable]
      exact pick_seen_prefix _
    exact hone.sublist.append ih

theorem pickData_cons (symbol : String) (dataByte : Bytes) (v : List (String × Bytes)) :
    ch.pickData msg key ((symbol, dataByte) :: v) =
      (if ch.key msg symbol = key then [dataByte] else []) ++ ch.pickData msg key v := by
  unfold Channel.pickData
  by_cases hk : ch.key msg symbol = key <;> simp [hk]

/-- **The books of a key.** What is written and at hand is among what the arms make of the
messages taken; it is all of it, if the queue works and the writer has not panicked. -/
structure BooksOK (mq : Mq) (ch : Channel x) (ls : List (PipeLabel x)) (s : Pipeline x) (key : String) :
    Prop where
  among : (s.writers.written key ++ s.writer.pending ch key).Sublist (due ch (taken ls) key)
  all : mq.Works → s.writer ≠ .panicked →
    s.writers.written key ++ s.writer.pending ch key = due ch (taken ls) key

/-- A step that neither takes nor writes. -/
theorem BooksOK.still (hok : BooksOK mq ch ls s key) (ht : taken [l] = []) (hws : s'.writers = s.writers)
    (hp : s'.writer.pending ch key = s.writer.pending ch key)
    (hn : s'.writer ≠ .panicked → s.writer ≠ .panicked) : BooksOK mq ch (ls ++ [l]) s' key := by
  refine ⟨?_, fun hmq hn' => ?_⟩
  · rw [taken_append, ht, List.append_nil, hws, hp]
    exact hok.among
  · rw [taken_append, ht, List.append_nil, hws, hp]
    exact hok.all hmq (hn hn')

/-- A step on which the writer panics. -/
theorem BooksOK.panic (hok : BooksOK mq ch ls s key) (hws : s'.writers = s.writers) (hw : s'.writer = .panicked) :
    BooksOK mq ch (ls ++ [l]) s' key := by
  refine ⟨?_, fun _ hn => absurd hw hn⟩
  rw [taken_append, due_append, hws, hw]
  refine ((List.append_sublist_append_left _).2 (List.nil_sublist _)).trans
    (hok.among.trans (List.sublist_append_left _ _))

/-- **One step.** -/
theorem booksOK_step (hok : BooksOK mq ch ls s key) (hst : PipeStep mq ch s l s') :
    BooksOK mq ch (ls ++ [l]) s' key := by
  cases hst with
  | crawl hc hlive => exact hok.still rfl rfl rfl id
  | forward hc hlive => exact hok.still rfl rfl rfl id
  | refuse hc hlive => exact hok.still rfl rfl rfl id
  | text hc => exact hok.still rfl rfl rfl id
  | convert hc hr => exact hok.still rfl rfl rfl id
  | crash hc hlive => exact hok.still rfl rfl rfl id
  | hangUp hc hr => exact hok.still rfl rfl rfl id
  | close hc => exact hok.still rfl rfl rfl id
  | next hw => exact hok.still rfl rfl (by rw [hw]; rfl) fun _ => by simp [hw]
  | finish hw hrx hc => exact hok.still rfl rfl (by rw [hw]; rfl) fun _ => by simp [hw]
  | takePanic hw hrx hv => exact hok.panic rfl rfl
  | writePanic hw hmq => exact hok.panic rfl rfl
  | @take msg rest v hw hrx hv =>
    have hv' : v = ch.publishes msg := by
      rw [dataVec_eq_ite] at hv
      split at hv
      · cases hv
      · exact (Option.some.inj hv).symm
    have hnone : s.writer.pending ch key = [] := by rw [hw]; rfl
    have htaken : due ch (taken (ls ++ [.take msg])) key = due ch (taken ls) key ++ ch.pickData msg key v := by
      rw [taken_append, due_append, hv', ← due_singleton]
      rfl
    refine ⟨?_, fun hmq _ => ?_⟩
    · have hamong := hok.among
      rw [hnone, List.append_nil] at hamong
      rw [htaken]
      exact hamong.append (List.Sublist.refl _)
    · have hall := hok.all hmq (by simp [hw])
      rw [hnone, List.append_nil] at hall
      rw [htaken, ← hall]
      rfl
  | @write msg symbol dataByte v log writers hw hmq =>
    obtain ⟨hlog, hwritten⟩ := writerMq_eq_some hmq
    have htaken : taken (ls ++ [.write]) = taken ls := by rw [taken_append]; exact List.append_nil _
    have hpending : s.writer.pending ch key =
        (if ch.key msg symbol = key then [dataByte] else []) ++ ch.pickData msg key v := by
      rw [hw, ← pickData_cons]
      rfl
    by_cases hwrite : mq.write (ch.key msg symbol) log dataByte = true
    · -- the entry moves from what is at hand to what is written
      have hmove : Writers.written (writers.insert (ch.key msg symbol) (log ++ [dataByte])) key ++
          ch.pickData msg key v = s.writers.written key ++ s.writer.pending ch key := by
        rw [written_insert, hpending, hwritten, hlog]
        by_cases hk : ch.key msg symbol = key
        · rw [if_pos hk.symm, if_pos hk, hk, List.append_assoc]
        · rw [if_neg (Ne.symm hk), if_neg hk, List.nil_append]
      rw [if_pos hwrite]
      exact ⟨by rw [htaken]; exact hmove ▸ hok.among, fun hm _ => by
        rw [htaken]; exact hmove.trans (hok.all hm (by simp [hw]))⟩
    · rw [if_neg hwrite]
      refine ⟨?_, fun hm => absurd (hm.write _ _ _) hwrite⟩
      rw [htaken]
      refine List.Sublist.trans ?_ hok.among
      rw [hpending]
      show (writers.written key ++ ch.pickData msg key v).Sublist _
      rw [hwritten]
      exact (List.append_sublist_append_left _).2 (List.sublist_append_right _ _)

/-- **The books balance** along every run. -/
theorem booksOK_run (h : Run (PipeStep mq ch) (Pipeline.init x) ls s) (key : String) :
    BooksOK mq ch ls s key := by
  refine Run.hist_inv (P := fun ls s => BooksOK mq ch ls s key) ⟨?_, fun _ _ => ?_⟩
    (fun _ _ _ _ _ hok hst => booksOK_step hok hst) h
  · simp [Pipeline.init, Writers.written, WriterAt.pending]
  · simp [Pipeline.init, Writers.written, WriterAt.pending, due, taken]

/-- What is written is owed of the messages taken. -/
theorem BooksOK.owed (hok : BooksOK mq ch ls s key) :
    (s.writers.written key).Sublist (Integration.owed ch (taken ls) key) :=
  ((List.sublist_append_left _ _).trans hok.among).trans (due_sublist_owed _)

/-- What is owed of the messages taken is the beginning of what is owed of those that went in. -/
theorem owed_taken (h : Run (PipeStep mq ch) (Pipeline.init x) ls s) (key : String) :
    owed ch (taken ls) key <+: owed ch (accepted ls) key := by
  obtain ⟨rest, hrest⟩ := (List.prefix_append (taken ls) s.rx).trans (follows_run h).queue
  rw [← hrest, owed, owed, List.flatMap_append]
  exact List.prefix_append _ _

/-- **What is published.** In every run, whatever the queue and the parsers answer: what has been
written to a channel is, in order and each at most once, among the records of the messages taken
that have its name; what is owed of the messages taken is the beginning of what is owed of all
that went in; and with a queue that works, as long as the writer has not panicked, what is
written and at hand is all that the arm makes of the messages taken. -/
theorem published_in_order (h : Run (PipeStep mq ch) (Pipeline.init x) ls s) (key : String) :
    (s.writers.written key).Sublist (owed ch (taken ls) key) ∧
      owed ch (taken ls) key <+: owed ch (accepted ls) key ∧
      (mq.Works → s.writer ≠ .panicked →
        s.writers.written key ++ s.writer.pending ch key = due ch (taken ls) key) :=
  ⟨(booksOK_run h key).owed, owed_taken h key, (booksOK_run h key).all⟩

/-- The second trade is still at hand. -/
theorem published_in_order_pairs : ∃ s, Run (PipeStep workingMq (pairsChannel .trade))
    (Pipeline.init twoPairs) pairsLabels s ∧
      s.writers.written "binance_spot_trade_ETHUSDT" ++ [[2]] = [[2]] := by
  obtain ⟨s, hrun, hw, -⟩ := pairs_run
  obtain ⟨-, -, hall⟩ := published_in_order hrun "binance_spot_trade_ETHUSDT"
  have hbooks := hall workingMq_works (by simp [hw])
  have hpending : s.writer.pending (pairsChannel .trade) "binance_spot_trade_ETHUSDT" = [[2]] := by
    rw [hw]
    decide
  have hdue : due (pairsChannel .trade) (taken pairsLabels) "binance_spot_trade_ETHUSDT" = [[2]] := by decide
  rw [hpending, hdue] at hbooks
  exact ⟨s, hrun, hbooks⟩

/-! ## Types that are not handled -/

/-- **Once the receiver is gone** nothing more goes in and nothing more is published. -/
theorem dead_run (h : Run (PipeStep mq ch) s ls s') (hdead : ¬ s.writer.Live) :
    accepted ls = [] ∧ taken ls = [] ∧ s'.writers = s.writers ∧ s'.writer = s.writer := by
  induction h with
  | nil => exact ⟨rfl, rfl, rfl, rfl⟩
  | @snoc ls t t' l _ hst ih =>
    obtain ⟨ha, ht, hws, hw⟩ := ih
    have hno : ∀ {p : WriterAt x}, t.writer = p → ¬ p.Live := fun hp => by rwa [← hp, hw]
    rw [accepted_append, taken_append, ha, ht]
    cases hst with
    | crawl hc hlive => exact absurd hlive (hno rfl)
    | forward hc hlive => exact absurd hlive (hno rfl)
    | take hp => exact absurd trivial (hno hp)
    | takePanic hp => exact absurd trivial (hno hp)
    | write hp => exact absurd trivial (hno hp)
    | writePanic hp => exact absurd trivial (hno hp)
    | next hp => exact absurd trivial (hno hp)
    | finish hp => exact absurd trivial (hno hp)
    | refuse | text | convert | crash | hangUp | close => exact ⟨rfl, rfl, hws, hw⟩

/-- **A type that is not handled is never published.** For every message type outside the six,
among them the one that the conversion thread makes its messages of: in every run nothing is
published, the writer has panicked on the first message that it has taken, and from then on
nothing goes into its channel any more. -/
theorem other_silent {name : String} (hother : ch.msgType = .other name)
    (h : Run (PipeStep mq ch) (Pipeline.init x) ls s) :
    s.writers = ∅ ∧ (taken ls = [] ∨ (∃ msg, taken ls = [msg]) ∧ s.writer = .panicked ∧
      ∀ ms s', Run (PipeStep mq ch) s ms s' → accepted ms = [] ∧ s'.writers = ∅) := by
  have hnone : ∀ msg, dataVec ch msg = none := fun msg => by simp only [dataVec, hother]
  have hinv : s.writers = ∅ ∧ (taken ls = [] ∧ (s.writer = .receiving ∨ s.writer = .finished) ∨
      (∃ msg, taken ls = [msg]) ∧ s.writer = .panicked) := by
    refine Run.hist_inv (P := fun ls s => s.writers = ∅ ∧
      (taken ls = [] ∧ (s.writer = .receiving ∨ s.writer = .finished) ∨
        (∃ msg, taken ls = [msg]) ∧ s.writer = .panicked)) ⟨rfl, Or.inl ⟨rfl, Or.inl rfl⟩⟩ ?_ h
    rintro ls s l s' - ⟨hws, hcases⟩ hst
    rw [taken_append]
    -- the writer is never in the loop over a `data_vec`
    have hidle : ∀ {msg v}, s.writer ≠ .sending msg v := by
      intro msg v hw
      rcases hcases with ⟨-, h | h⟩ | ⟨-, h⟩ <;> cases hw.symm.trans h
    cases hst with
    | take hw hrx hv => rw [hnone] at hv; cases hv
    | write hw => exact absurd hw hidle
    | writePanic hw => exact absurd hw hidle
    | next hw => exact absurd hw hidle
    | @takePanic msg rest hw hrx hv =>
      rcases hcases with ⟨ht, -⟩ | ⟨-, hp⟩
      · exact ⟨hws, Or.inr ⟨⟨msg, by rw [ht]; rfl⟩, rfl⟩⟩
      · cases hw.symm.trans hp
    | finish hw hrx hc =>
      rcases hcases with ⟨ht, -⟩ | ⟨-, hp⟩
      · exact ⟨hws, Or.inl ⟨by rw [ht]; rfl, Or.inr rfl⟩⟩
      · cases hw.symm.trans hp
    | crawl | refuse | text | convert | forward | crash | hangUp | close =>
      exact ⟨hws, by simpa [taken] using hcases⟩
  obtain ⟨hws, ⟨ht, -⟩ | ⟨ht, hp⟩⟩ := hinv
  · exact ⟨hws, Or.inl ht⟩
  · refine ⟨hws, Or.inr ⟨ht, hp, fun ms s' hrun => ?_⟩⟩
    obtain ⟨ha, -, hws', -⟩ := dead_run hrun (by rw [hp]; exact fun hlive => hlive)
    exact ⟨ha, hws'.trans hws⟩

/-- The first text from `!forceOrder@arr`. -/
theorem other_silent_text : ∃ (msg : Message twoPairs) (s : Pipeline twoPairs),
    Run (PipeStep workingMq (pairsChannel (.other "other"))) (Pipeline.init twoPairs)
      [.text "{}", .convert 0, .forward msg, .take msg] s ∧ s.writers = ∅ ∧ s.writer = .panicked := by
  set ch : Channel twoPairs := pairsChannel (.other "other") with hch
  have htext : PipeStep workingMq ch (Pipeline.init twoPairs) (.text "{}") _ := .text (by simp [Pipeline.init])
  have hconvert : PipeStep workingMq ch { Pipeline.init twoPairs with rxRaw := ["{}"] } (.convert 0) _ :=
    .convert rfl rfl
  set msg := ch.newMessage 0 "{}" with hmsg
  have hforward : PipeStep workingMq ch { Pipeline.init twoPairs with conversion := .sending msg } (.forward msg) _ :=
    .forward rfl trivial
  have htake : PipeStep workingMq ch { Pipeline.init twoPairs with rx := [msg] } (.take msg) _ :=
    .takePanic rfl rfl rfl
  have hrun := Run.cons htext (Run.cons hconvert (Run.cons hforward (Run.single htake)))
  have hother : ch.msgType = .other "other" := rfl
  obtain ⟨hws, hcases⟩ := other_silent hother hrun
  rcases hcases with ht | ⟨-, hp, -⟩
  · cases ht
  · exact ⟨msg, _, hrun, hws, hp⟩

end CryptoMarket.Integration
