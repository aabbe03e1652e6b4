import CryptoMarket.Lib.Log
import CryptoMarket.Publisher.Tables

/-!
# Publisher server: the bytes on a stream

* `published_run`: along every run, what is written to a client is a published message or
  an error reply.
* `untorn_iff`: the bytes accepted on a stream are complete messages one after the other
  exactly when the transport took each write on it in full or not at all. Nothing resumes
  a short write: `partial_responses` is always empty (`noResponses_run`).
-/

namespace CryptoMarket.Publisher

variable {Conn : Type} {q : Quiche Conn} {ipcs : List String} {rt : Bool} {s s' : Server Conn}
  {l : Label} {ls : List Label} {cid : ConnectionId} {c : Client Conn}

/-- The bytes of a write that the transport accepted. -/
def Write.accepted (w : Write) : Bytes :=
  match w.answer with
  | .ok n => w.data.take n
  | .error _ => []

/-- The write failed, or was accepted in full or not at all. -/
def Write.Whole (w : Write) : Prop :=
  match w.answer with
  | .ok n => n = 0 ∨ n = w.data.length
  | .error _ => True

/-- The bytes accepted on a stream of a client. -/
def Client.accepted (c : Client Conn) (stream : StreamId) : Bytes :=
  (c.writes.filter (·.stream = stream)).flatMap Write.accepted

/-- The messages of which a byte was accepted on a stream. -/
def Client.begun (c : Client Conn) (stream : StreamId) : List Bytes :=
  ((c.writes.filter (·.stream = stream)).filter (·.accepted ≠ [])).map Write.data

/-- A message of a `distribute` call, or an error reply of `handle_sub`. -/
def Published (ls : List Label) (data : Bytes) : Prop :=
  (∃ topic, .message topic data ∈ ls) ∨ ∃ msg ∈ subErrors, data = errorReply msg

/-- The accepted bytes are the published messages that were begun, each complete. -/
def Client.Untorn (ls : List Label) (c : Client Conn) (stream : StreamId) : Prop :=
  c.accepted stream = (c.begun stream).flatten ∧ ∀ data ∈ c.begun stream, Published ls data

/-- `stream_send` accepts a prefix of the data. -/
def Quiche.AcceptsPrefix (q : Quiche Conn) : Prop :=
  ∀ conn stream data fin n, (q.streamSend conn stream data fin).1 = .ok n → n ≤ data.length

/-! ## What is written -/

/-- The forwarders distribute what was published, and the clients got nothing else. -/
structure PublishedOK (q : Quiche Conn) (ls : List Label) (s : Server Conn) : Prop where
  message : ∀ t d, (s.pc t).message = some d → ∃ topic, .message topic d ∈ ls
  writes : ∀ cid c, s.clientList.lookup cid = some c → ∀ w ∈ c.writes, w.Of q (Published ls)

theorem Write.Of.mono {P P' : Bytes → Prop} {w : Write} (h : w.Of q P) (hP : ∀ d, P d → P' d) :
    w.Of q P' :=
  ⟨hP _ h.1, h.2⟩

/-- **A step keeps it.** -/
theorem published_step (ht : Touches q ipcs s s') (hst : Step q ipcs rt s l s')
    (hok : PublishedOK q ls s) : PublishedOK q (ls ++ [l]) s' := by
  have hmono : ∀ d, Published ls d → Published (ls ++ [l]) d := by
    rintro d (⟨topic, h⟩ | h)
    · exact Or.inl ⟨topic, List.mem_append_left _ h⟩
    · exact Or.inr h
  have hsends : ∀ d, s.Sends d → Published ls d := by
    rintro d (⟨t, h⟩ | h)
    · exact Or.inl (hok.message t d h)
    · exact Or.inr h
  -- a changed client has its old writes and new ones of published data
  have hins : ∀ {cid : ConnectionId} {c' : Client Conn}, s'.clientList = s.clientList.insert cid c' →
      (∀ w ∈ c'.writes, w.Of q (Published ls)) →
      ∀ i d, s'.clientList.lookup i = some d → ∀ w ∈ d.writes, w.Of q (Published (ls ++ [l])) := by
    intro cid c' hl hw i d hd w hwd
    rw [hl, HashMap.lookup_insert_eq] at hd
    split at hd
    · obtain rfl := Option.some.inj hd
      exact (hw w hwd).mono hmono
    · exact (hok.writes i d hd w hwd).mono hmono
  have hgrow : ∀ {cid : ConnectionId} {c c' : Client Conn}, s.clientList.lookup cid = some c →
      c.Grows q s.Sends c' → ∀ w ∈ c'.writes, w.Of q (Published ls) := by
    intro cid c c' hc hg w hw
    obtain ⟨ws, hws, hP⟩ := hg.writes
    rw [hws] at hw
    rcases List.mem_append.1 hw with hw | hw
    · exact hok.writes cid c hc w hw
    · exact (hP w hw).mono hsends
  have hsame : s'.clientList = s.clientList →
      ∀ i d, s'.clientList.lookup i = some d → ∀ w ∈ d.writes, w.Of q (Published (ls ++ [l])) := by
    intro hl i d hd w hw
    rw [hl] at hd
    exact (hok.writes i d hd w hw).mono hmono
  constructor
  · obtain ⟨t, p, hm⟩ := hst.moves
    intro u d hd
    rcases hm.message_of hd with hd | ⟨topic, rfl⟩
    · obtain ⟨topic, h⟩ := hok.message u d hd
      exact ⟨topic, List.mem_append_left _ h⟩
    · exact ⟨topic, by simp⟩
  · cases ht with
    | nothing hl _ => exact hsame hl
    | client hc hg hl _ => exact hins hl (hgrow hc hg)
    | accept _ _ hw hl _ => exact hins hl (by simp [hw])
    | commands _ _ hc hg hl _ => exact hins hl (hgrow hc hg)
    | retain _ _ hl _ =>
      intro i d hd w hw
      rw [hl, lookup_retainClients] at hd
      exact (hok.writes i d hd.1 w hw).mono hmono
    | register hl _ => exact hsame hl

theorem published_run (h : Runs q ipcs rt ls s) : PublishedOK q ls s := by
  refine Run.hist_inv (P := PublishedOK q) ?_ ?_ h
  · refine ⟨fun t d hd => ?_, fun i d hd => by simp [Server.init] at hd⟩
    cases t <;> simp [Server.init, Pc.message] at hd
  · intro ls s l s' hr hok hst
    exact published_step (touches_run hr hst) hst hok

/-! ## Torn messages -/

theorem Write.accepted_prefix (w : Write) : w.accepted <+: w.data := by
  unfold Write.accepted
  split
  · exact List.take_prefix _ _
  · exact List.nil_prefix

/-- A write that was begun is complete exactly when it is whole. -/
theorem accepted_eq_iff {w : Write} (hle : ∀ n, w.answer = .ok n → n ≤ w.data.length) :
    (w.accepted ≠ [] → w.accepted = w.data) ↔ w.Whole := by
  unfold Write.accepted Write.Whole
  cases ha : w.answer with
  | error e => simp
  | ok n =>
    have hn := hle n ha
    simp only [ne_eq, List.take_eq_nil_iff, not_or, List.take_eq_self_iff]
    constructor
    · intro h
      by_cases h0 : n = 0
      · exact Or.inl h0
      · by_cases hd : w.data = []
        · rw [hd] at hn ⊢
          exact Or.inr (by simpa using hn)
        · have := h ⟨h0, hd⟩
          omega
    · rintro (h | h) ⟨h0, -⟩
      · exact absurd h h0
      · omega

/-- Only the writes that were begun contribute bytes. -/
theorem flatMap_accepted_begun (ws : List Write) :
    (ws.filter (·.accepted ≠ [])).flatMap Write.accepted = ws.flatMap Write.accepted := by
  induction ws with
  | nil => rfl
  | cons w ws ih =>
    by_cases hn : w.accepted = []
    · rw [List.flatMap_cons, List.filter_cons_of_neg (by simpa using hn), hn, ih, List.nil_append]
    · rw [List.flatMap_cons, List.filter_cons_of_pos (by simpa using hn), List.flatMap_cons, ih]

/-- **No message is torn** on a stream if and only if each `stream_send` on it accepted all of
its data or nothing. -/
theorem untorn_iff (hq : q.AcceptsPrefix) (h : Runs q ipcs rt ls s)
    (hc : s.clientList.lookup cid = some c) (stream : StreamId) :
    c.Untorn ls stream ↔ ∀ w ∈ c.writes, w.stream = stream → w.Whole := by
  have hw := (published_run h).writes cid c hc
  have hle : ∀ w ∈ c.writes, ∀ n, w.answer = .ok n → n ≤ w.data.length := by
    intro w hm n hn
    obtain ⟨-, -, conn, hans⟩ := hw w hm
    exact hq conn w.stream w.data w.fin n (hans.trans hn)
  have hacc : c.accepted stream =
      ((c.writes.filter (·.stream = stream)).filter (·.accepted ≠ [])).flatMap Write.accepted :=
    (flatMap_accepted_begun _).symm
  have hbegun : (c.begun stream).flatten =
      ((c.writes.filter (·.stream = stream)).filter (·.accepted ≠ [])).flatMap Write.data := by
    rw [Client.begun, List.flatMap_def]
  have hpub : ∀ data ∈ c.begun stream, Published ls data := by
    intro data hd
    obtain ⟨w, hm, rfl⟩ := List.mem_map.1 hd
    exact (hw w (List.mem_of_mem_filter (List.mem_of_mem_filter hm))).1
  rw [Client.Untorn, and_iff_left hpub, hacc, hbegun,
    flatMap_prefix_eq_iff fun w _ => w.accepted_prefix]
  constructor
  · intro hall w hm hs
    refine (accepted_eq_iff (hle w hm)).1 fun hn => hall w ?_
    exact List.mem_filter.2 ⟨List.mem_filter.2 ⟨hm, by simpa using hs⟩, by simpa using hn⟩
  · intro hall w hm
    obtain ⟨hm, hn⟩ := List.mem_filter.1 hm
    obtain ⟨hm, hs⟩ := List.mem_filter.1 hm
    exact (accepted_eq_iff (hle w hm)).2 (hall w hm (by simpa using hs)) (by simpa using hn)

/-- The steps of one published message. -/
def deliverSteps (topic : String) (data : Bytes) : List Label :=
  [.message topic data, .distSub topic, .distList topic, .deliver topic, .unlock topic]

section

variable {s : Server (List Bytes)} {c : Client (List Bytes)} {topic : String}

/-- A message comes in and `distribute` has its first lock. -/
theorem at_distList (accepts : Bytes → ℕ) (command : String)
    (hat : s.At topic .lockList .sleeping .idle (some c) {sampleCid}) (data : Bytes) : ∃ s',
    Run (Step (topicQuiche accepts command) [topic] true) s [.message topic data, .distSub topic] s' ∧
      s'.At topic .lockList .sleeping (.distList data) (some c) {sampleCid} := by
  have htopic : topic ∈ s.clientSubscribe := Finmap.mem_of_lookup_eq_some hat.topic
  set Next := Step (topicQuiche accepts command) [topic] true
  have h₁ : Next s (.message topic data) _ := Step.message hat.forwarder hat.spawned htopic
  have hat₁ := hat.goto_forwarder (.distSub data)
  set s₁ := s.goto (.forwarder topic) (.distSub data)
  have h₂ : Next s₁ (.distSub topic) _ := Step.distSub hat₁.forwarder
    (hat₁.free (by simp [Pc.Holds, Pc.held]) (by decide) (by simp [Pc.Holds, Pc.held]))
  rw [if_pos ⟨hat₁.poisoned _, htopic⟩] at h₂
  exact ⟨_, Run.cons h₁ (Run.single h₂), hat₁.goto_forwarder (.distList data)⟩

/-- The second lock and the loop of `distribute` over one client. -/
theorem at_sending (accepts : Bytes → ℕ) (command : String) {data : Bytes}
    (hat : s.At topic .lockList .sleeping (.distList data) (some c) {sampleCid}) :
    ∃ s₁ s₂, Step (topicQuiche accepts command) [topic] true s (.distList topic) s₁ ∧
      s₁.At topic .lockList .sleeping (.sending data [sampleCid]) (some c) {sampleCid} ∧
      Step (topicQuiche accepts command) [topic] true s₁ (.deliver topic) s₂ ∧
      s₂.At topic .lockList .sleeping (.sending data [])
        (some { c with writes := c.writes ++ [⟨0, data, false, .ok (accepts data)⟩] }) {sampleCid} := by
  set Next := Step (topicQuiche accepts command) [topic] true
  have hwalks : ({sampleCid} : HashSet ConnectionId).Walks [sampleCid] := rfl
  have h₁ : Next s (.distList topic) _ := Step.distList hat.forwarder
    (hat.free (by simp [Pc.Holds, Pc.held]) (by decide) (by simp [Pc.Holds, Pc.held])) hat.topic hwalks
  rw [hat.poisoned, if_neg (by decide)] at h₁
  have hat₁ := hat.goto_forwarder (.sending data [sampleCid])
  set s₁ := s.goto (.forwarder topic) (.sending data [sampleCid])
  have h₂ : Next s₁ (.deliver topic) _ := Step.deliver [] hat₁.forwarder hat₁.client rfl
  exact ⟨_, _, h₁, hat₁, h₂, (hat₁.setClient
    { c with writes := c.writes ++ [⟨0, data, false, .ok (accepts data)⟩] }).goto_forwarder
      (.sending data [])⟩

/-- A published message is written to the subscribed client. -/
theorem at_delivered (accepts : Bytes → ℕ) (command : String)
    (hat : s.At topic .lockList .sleeping .idle (some c) {sampleCid}) (data : Bytes) : ∃ s',
    Run (Step (topicQuiche accepts command) [topic] true) s (deliverSteps topic data) s' ∧
      s'.At topic .lockList .sleeping .idle
        (some { c with writes := c.writes ++ [⟨0, data, false, .ok (accepts data)⟩] }) {sampleCid} := by
  obtain ⟨s₁, hrun₁, hat₁⟩ := at_distList accepts command hat data
  obtain ⟨s₂, s₃, hlist, -, hdeliver, hat₃⟩ := at_sending accepts command hat₁
  have hunlock : Step (topicQuiche accepts command) [topic] true s₃ (.unlock topic) _ :=
    Step.unlock hat₃.forwarder
  exact ⟨_, hrun₁.append (Run.cons hlist (Run.cons hdeliver (Run.single hunlock))),
    hat₃.goto_forwarder .idle⟩

end

/-- A message that is accepted in full is not torn. -/
theorem untorn_sample : ∃ ls s c, Runs (sampleQuiche List.length) ["btc"] true ls s ∧
    s.clientList.lookup sampleCid = some c ∧ c.accepted 0 = [1, 2, 3] ∧ c.Untorn ls 0 := by
  obtain ⟨s, hrun, hat⟩ := at_subscribed List.length subscribes_btc
  obtain ⟨s', hrun', hat'⟩ := at_delivered List.length "sub@btc" hat [1, 2, 3]
  have hq : (sampleQuiche List.length).AcceptsPrefix := by
    intro conn stream data fin n h
    exact (Except.ok.inj h).ge
  refine ⟨_, s', _, hrun.append hrun', hat'.client, by decide,
    (untorn_iff hq (hrun.append hrun') hat'.client 0).2 ?_⟩
  intro w hw _
  simp only [List.nil_append, List.mem_singleton] at hw
  rw [hw]
  exact Or.inr rfl

/-- **Two messages of which the transport takes one byte each**: the stream carries `1, 4`,
which no sequence of published messages and error replies gives. -/
theorem torn_sample : ∃ ls s c, Runs (sampleQuiche fun data => min 1 data.length) ["btc"] true ls s ∧
    s.clientList.lookup sampleCid = some c ∧ c.accepted 0 = [1, 4] ∧
    ¬ ∃ msgs : List Bytes, (∀ m ∈ msgs, Published ls m) ∧ msgs.flatten = c.accepted 0 := by
  obtain ⟨s, hrun, hat⟩ := at_subscribed (fun data => min 1 data.length) subscribes_btc
  obtain ⟨s₁, hrun₁, hat₁⟩ := at_delivered (fun data => min 1 data.length) "sub@btc" hat [1, 2, 3]
  obtain ⟨s₂, hrun₂, hat₂⟩ := at_delivered (fun data => min 1 data.length) "sub@btc" hat₁ [4, 5, 6]
  refine ⟨_, s₂, _, (hrun.append hrun₁).append hrun₂, hat₂.client, by decide, ?_⟩
  rintro ⟨msgs, hpub, hflat⟩
  -- everything published is longer than the stream
  have hlong : ∀ m ∈ msgs, 3 ≤ m.length := by
    intro m hm
    rcases hpub m hm with ⟨topic, ht⟩ | ⟨msg, -, rfl⟩
    · have : m = [1, 2, 3] ∨ m = [4, 5, 6] := by
        simp [topicSteps, deliverSteps] at ht
        tauto
      rcases this with rfl | rfl <;> decide
    · rw [errorReply, utf8_append, List.length_append, show (utf8 "ERROR: ").length = 7 by decide]
      omega
  have hlen := congrArg List.length hflat
  have htwo : (msgs.flatten).length = 2 := hlen.trans (by decide)
  cases msgs with
  | nil => simp at htwo
  | cons m msgs =>
    have := hlong m List.mem_cons_self
    rw [List.flatten_cons, List.length_append] at htwo
    omega

end CryptoMarket.Publisher
