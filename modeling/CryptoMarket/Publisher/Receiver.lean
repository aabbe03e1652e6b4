import CryptoMarket.Publisher.Streams

/-!
# Publisher client: what arrives

`client` (`client.rs`): one thread polls the socket, feeds the datagrams to its
connection, sends the subscriptions once the connection is established and passes every
piece that `stream_recv` gives on to a channel. Nothing in the stream tells where a
message ends: `distribute` writes the bytes of a message as they are and the client takes
each piece for a message.

* `tx_run`: the client passes on the pieces.
* `received_eq_iff`: so it passes on the bytes that were written, and the messages that
  were written exactly when the pieces have their lengths.
* `received_joined`: two messages that arrive in one piece.

The receiver of the channel is taken to be there.
-/

namespace CryptoMarket.Publisher

/-- What the client calls in `quiche`. -/
structure ClientQuiche (Conn : Type) extends Quiche Conn where
  onTimeout : Conn → Conn
  /-- `close(app, err, reason)` returns `Ok`. -/
  closes : Conn → Bool → ℕ → Bytes → Bool

/-- `HTTP_REQ_STREAM_ID` -/
def httpReqStreamId : StreamId := 4

/-- `data` in `client`: a command for each topic. -/
def subscribeData (subscribeList : List String) : Bytes :=
  subscribeList.flatMap fun sub => utf8 ("sub@" ++ sub ++ ";")

/-- Where the client is. -/
inductive ReceiverPc where
  /-- At `poll.poll`. -/
  | polling
  /-- At `socket.recv_from`. -/
  | receiving
  /-- In the loops over these readable streams, then at the send loop. -/
  | reading (streams : List StreamId)
  | ended
  | panicked
  deriving DecidableEq

/-- The client. -/
structure Receiver (Conn : Type) where
  conn : Conn
  reqSent : Bool
  /-- What was sent into the channel, oldest first. -/
  tx : List Bytes
  pc : ReceiverPc

variable {Conn : Type}

/-- Before the main loop, with the connection that `connect` gave. -/
def Receiver.init (conn : Conn) : Receiver Conn := ⟨conn, false, [], .polling⟩

/-- From the end of the loop over the datagrams to the loops over the readable streams. -/
def Receiver.request (q : ClientQuiche Conn) (subscribeList : List String) (r : Receiver Conn) :
    Receiver Conn :=
  if q.isClosed r.conn then { r with pc := .ended }
  else if q.isEstablished r.conn ∧ ¬ r.reqSent then
    let data := subscribeData subscribeList
    -- `data.len() - 1` of no data is out of range
    if data = [] then { r with pc := .panicked }
    else
      match q.streamSend r.conn httpReqStreamId data.dropLast true with
      | (.ok _, conn) => { r with conn, reqSent := true, pc := .reading (q.readable conn) }
      | (.error _, conn) => { r with conn, pc := .panicked }
  else { r with pc := .reading (q.readable r.conn) }

/-- One piece of a stream. -/
def Receiver.take (q : ClientQuiche Conn) (stream : StreamId) (chunk : Bytes) (fin : Bool)
    (r : Receiver Conn) : Receiver Conn :=
  let r := { r with tx := r.tx ++ [chunk] }
  if stream = httpReqStreamId ∧ fin then
    if q.closes r.conn true 0 (utf8 "kthxbye") then
      { r with conn := q.close r.conn true 0 (utf8 "kthxbye") }
    else { r with pc := .panicked }
  else r

/-- The send loop, with what the socket answers to each datagram; `false` if it panics, no
value if there are more datagrams than answers. -/
def sendLoop (q : ClientQuiche Conn) : List SocketAnswer → Conn → Option (Conn × Bool)
  | answers, conn =>
    match q.send conn with
    | (.error .done, conn) => some (conn, true)
    | (.error _, conn) => some (q.close conn false 1 (utf8 "fail"), true)
    | (.ok _, conn) =>
      match answers with
      | [] => none
      | .sent :: answers => sendLoop q answers conn
      | .wouldBlock :: _ => some (conn, true)
      | .failed :: _ => some (conn, false)

/-- After the send loop. -/
def Receiver.flushed (q : ClientQuiche Conn) (conn : Conn) (ok : Bool) (r : Receiver Conn) :
    Receiver Conn :=
  if ok = false then { r with conn, pc := .panicked }
  else if q.isClosed conn then { r with conn, pc := .ended }
  else { r with conn, pc := .polling }

/-- What a step of the client is about. -/
inductive ReceiverLabel where
  | timeout
  | events
  | datagram (pkt : Bytes) (src : SocketAddr)
  | wouldBlock
  | recvFailed
  /-- A piece of a stream. -/
  | chunk (stream : StreamId) (chunk : Bytes)
  | streamEnd (stream : StreamId)
  | flush
  deriving DecidableEq

/-- **The steps of the client.** -/
inductive ReceiverStep (q : ClientQuiche Conn) (subscribeList : List String) (r : Receiver Conn) :
    ReceiverLabel → Receiver Conn → Prop
  /-- No events: the timer of the connection has run out. -/
  | timeout : r.pc = .polling → ReceiverStep q subscribeList r .timeout
      ({ r with conn := q.onTimeout r.conn }.request q subscribeList)
  | events : r.pc = .polling → ReceiverStep q subscribeList r .events { r with pc := .receiving }
  | datagram {pkt src} : r.pc = .receiving →
      ReceiverStep q subscribeList r (.datagram pkt src) { r with conn := (q.recv r.conn pkt src).2 }
  | wouldBlock : r.pc = .receiving →
      ReceiverStep q subscribeList r .wouldBlock (r.request q subscribeList)
  | recvFailed : r.pc = .receiving →
      ReceiverStep q subscribeList r .recvFailed { r with pc := .panicked }
  | chunk {stream streams chunk fin conn} : r.pc = .reading (stream :: streams) →
      q.streamRecv r.conn stream = (.ok (chunk, fin), conn) →
      ReceiverStep q subscribeList r (.chunk stream chunk) ({ r with conn }.take q stream chunk fin)
  | streamEnd {stream streams error conn} : r.pc = .reading (stream :: streams) →
      q.streamRecv r.conn stream = (.error error, conn) →
      ReceiverStep q subscribeList r (.streamEnd stream) { r with conn, pc := .reading streams }
  | flush {conn ok} (answers : List SocketAnswer) : r.pc = .reading [] →
      sendLoop q answers r.conn = some (conn, ok) →
      ReceiverStep q subscribeList r .flush (r.flushed q conn ok)

/-! ## Pieces -/

/-- The piece of the stream that a step gets, if it gets one. -/
def ReceiverLabel.piece (stream : StreamId) : ReceiverLabel → Option Bytes
  | .chunk s data => if s = stream then some data else none
  | _ => none

/-- The pieces of a stream that `stream_recv` gave. -/
def pieces (ls : List ReceiverLabel) (stream : StreamId) : List Bytes :=
  ls.filterMap (ReceiverLabel.piece stream)

/-- Every piece is of this stream. -/
def SingleStream (ls : List ReceiverLabel) (stream : StreamId) : Prop :=
  ∀ s chunk, .chunk s chunk ∈ ls → s = stream

/-- What `stream_send` was called with on a stream of a client of the server. -/
def Client.sentOn (c : Client Conn) (stream : StreamId) : List Bytes :=
  (c.writes.filter (·.stream = stream)).map Write.data

variable {q : ClientQuiche Conn} {subscribeList : List String} {r r' : Receiver Conn}
  {l : ReceiverLabel} {ls : List ReceiverLabel} {stream : StreamId}

theorem tx_request : (r.request q subscribeList).tx = r.tx := by
  unfold Receiver.request
  split
  · rfl
  · split
    · dsimp only
      split
      · rfl
      · split <;> rfl
    · rfl

theorem tx_take {chunk : Bytes} {fin : Bool} : (r.take q stream chunk fin).tx = r.tx ++ [chunk] := by
  unfold Receiver.take
  dsimp only
  split
  · split <;> rfl
  · rfl

/-- **One step** passes on the piece it gets. -/
theorem tx_step (hst : ReceiverStep q subscribeList r l r')
    (hone : ∀ s chunk, l = .chunk s chunk → s = stream) : r'.tx = r.tx ++ (l.piece stream).toList := by
  cases hst with
  | timeout hpc =>
    rw [tx_request]
    exact (List.append_nil _).symm
  | events hpc => exact (List.append_nil _).symm
  | datagram hpc => exact (List.append_nil _).symm
  | wouldBlock hpc =>
    rw [tx_request]
    exact (List.append_nil _).symm
  | recvFailed hpc => exact (List.append_nil _).symm
  | chunk hpc hr =>
    obtain rfl := hone _ _ rfl
    rw [tx_take, ReceiverLabel.piece, if_pos rfl]
    rfl
  | streamEnd hpc hr => exact (List.append_nil _).symm
  | flush answers hpc hf =>
    have hflushed : ∀ conn ok, (r.flushed q conn ok).tx = r.tx := by
      intro conn ok
      unfold Receiver.flushed
      split
      · rfl
      · split <;> rfl
    rw [hflushed]
    exact (List.append_nil _).symm

/-- **The client passes on the pieces.** -/
theorem tx_run {conn : Conn} (hrun : Run (ReceiverStep q subscribeList) (Receiver.init conn) ls r)
    (hone : SingleStream ls stream) : r.tx = pieces ls stream := by
  revert hone
  refine Run.hist_inv (P := fun ls r => SingleStream ls stream → r.tx = pieces ls stream)
    (fun _ => rfl) ?_ hrun
  intro ls r l r' _ ih hst hone
  have hold := ih fun s chunk hm => hone s chunk (List.mem_append_left _ hm)
  have hnew := tx_step hst fun s chunk hl => hone s chunk (by simp [hl])
  rw [hnew, hold, pieces, pieces, List.filterMap_append]
  cases hp : l.piece stream <;> simp [hp]

/-- Writes that are accepted whole are the bytes of the stream. -/
theorem accepted_eq_flatten {ConnS : Type} {c : Client ConnS}
    (hwhole : ∀ w ∈ c.writes, w.stream = stream → w.answer = .ok w.data.length) :
    c.accepted stream = (c.sentOn stream).flatten := by
  unfold Client.accepted Client.sentOn
  rw [← List.flatMap_def]
  refine List.flatMap_congr fun w hw => ?_
  obtain ⟨hm, hs⟩ := List.mem_filter.1 hw
  rw [Write.accepted, hwhole w hm (by simpa using hs)]
  exact List.take_length

/-- **Message boundaries.** Every `stream_send` of the server on the stream accepts all of
its data, and the pieces of the client's only stream make up the accepted bytes. Then the
client passes on the pieces, so together all that was written, and it passes on the
written messages if and only if the pieces have their lengths. -/
theorem received_eq_iff {ConnS : Type} {c : Client ConnS} {conn : Conn}
    (hwhole : ∀ w ∈ c.writes, w.stream = stream → w.answer = .ok w.data.length)
    (hrun : Run (ReceiverStep q subscribeList) (Receiver.init conn) ls r)
    (hone : SingleStream ls stream) (htransport : (pieces ls stream).flatten = c.accepted stream) :
    r.tx = pieces ls stream ∧ r.tx.flatten = (c.sentOn stream).flatten ∧
      (r.tx = c.sentOn stream ↔
        (pieces ls stream).map List.length = (c.sentOn stream).map List.length) := by
  have htx := tx_run hrun hone
  have hflat : r.tx.flatten = (c.sentOn stream).flatten := by
    rw [htx, htransport, accepted_eq_flatten hwhole]
  refine ⟨htx, hflat, ?_⟩
  rw [List.eq_iff_flatten_eq, and_iff_right hflat, htx]

/-! ## Two messages in one piece -/

/-- The transport of the server, on the stream that the client opens. -/
def requestStreamQuiche : Quiche (List Bytes) :=
  { sampleQuiche List.length with writable := fun _ => [httpReqStreamId] }

/-- The transport of the client, whose connection is the pieces it will get. -/
def pieceQuiche : ClientQuiche (List Bytes) :=
  { sampleQuiche List.length with
    readable := fun _ => [httpReqStreamId]
    onTimeout := fun conn => conn
    closes := fun _ _ _ _ => true }

/-- A client to which the server has distributed two messages. -/
def twoMessages : Client (List Bytes) :=
  writeData requestStreamQuiche [2] (writeData requestStreamQuiche [1] ⟨[], ∅, []⟩)

theorem twoMessages_whole : ∀ w ∈ twoMessages.writes, w.stream = httpReqStreamId →
    w.answer = .ok w.data.length := by
  intro w hw _
  simp only [twoMessages, writeData, requestStreamQuiche, sampleQuiche, Client.streamSend,
    List.foldl_cons, List.foldl_nil, List.nil_append, List.mem_append, List.mem_singleton] at hw
  rcases hw with rfl | rfl <;> rfl

/-- The client gets two bytes in one piece. -/
theorem run_onePiece : ∃ r, Run (ReceiverStep pieceQuiche ["btc"]) (Receiver.init [[1, 2]])
    [.events, .wouldBlock, .chunk httpReqStreamId [1, 2]] r ∧ r.tx = [[1, 2]] := by
  have h₁ : ReceiverStep pieceQuiche ["btc"] (Receiver.init [[1, 2]]) .events _ := .events rfl
  have h₂ : ReceiverStep pieceQuiche ["btc"] { Receiver.init [[1, 2]] with pc := .receiving }
      .wouldBlock ⟨[[1, 2]], true, [], .reading [httpReqStreamId]⟩ := .wouldBlock rfl
  have h₃ : ReceiverStep pieceQuiche ["btc"] ⟨[[1, 2]], true, [], .reading [httpReqStreamId]⟩
      (.chunk httpReqStreamId [1, 2]) _ := .chunk rfl rfl
  exact ⟨_, Run.cons h₁ (Run.cons h₂ (Run.single h₃)), rfl⟩

theorem singleStream_onePiece : SingleStream
    [.events, .wouldBlock, .chunk httpReqStreamId [1, 2]] httpReqStreamId := by
  intro s chunk hm
  simp at hm
  exact hm.1

/-- The two bytes are what was written. -/
theorem received_onePiece : ∃ r, Run (ReceiverStep pieceQuiche ["btc"]) (Receiver.init [[1, 2]])
    [.events, .wouldBlock, .chunk httpReqStreamId [1, 2]] r ∧
      r.tx.flatten = (twoMessages.sentOn httpReqStreamId).flatten := by
  obtain ⟨r, hrun, -⟩ := run_onePiece
  exact ⟨r, hrun, (received_eq_iff twoMessages_whole hrun singleStream_onePiece (by decide)).2.1⟩

/-- **Two messages in one piece** are passed on as one. -/
theorem received_joined : ∃ ls r, Run (ReceiverStep pieceQuiche ["btc"]) (Receiver.init [[1, 2]]) ls r ∧
    (∀ w ∈ twoMessages.writes, w.stream = httpReqStreamId → w.answer = .ok w.data.length) ∧
    SingleStream ls httpReqStreamId ∧
    (pieces ls httpReqStreamId).flatten = twoMessages.accepted httpReqStreamId ∧
    twoMessages.sentOn httpReqStreamId = [[1], [2]] ∧ r.tx ≠ twoMessages.sentOn httpReqStreamId := by
  obtain ⟨r, hrun, htx⟩ := run_onePiece
  refine ⟨_, r, hrun, twoMessages_whole, singleStream_onePiece, by decide, by decide, ?_⟩
  rw [htx]
  decide

end CryptoMarket.Publisher
