import CryptoMarket.Lib.Run
import CryptoMarket.Publisher.Payload

/-!
# Publisher client: its request

The client asks for its topics once, with the commands of all its names and the end of the
stream in one `stream_send`. The log has these calls (`requests`).

* `asked_step`: a step calls `stream_send` only if no step before it has.
* `request_subscribes`: so in every run the client makes one request at most, when its connection
  is established; and the server's loop over the pieces of it, if they are cut after commands,
  subscribes the connection to the client's names and to nothing else.
-/

namespace CryptoMarket.Publisher

/-- A call of `stream_send` by the client. -/
structure Request (Conn : Type) where
  conn : Conn
  stream : StreamId
  data : Bytes
  fin : Bool

variable {Conn : Type}

/-- The call in `Receiver.request`, if it comes to it. -/
def Receiver.asks (q : ClientQuiche Conn) (subscribeList : List String) (r : Receiver Conn) :
    List (Request Conn) :=
  if q.isClosed r.conn then []
  else if q.isEstablished r.conn ∧ ¬ r.reqSent ∧ subscribeData subscribeList ≠ [] then
    [⟨r.conn, httpReqStreamId, (subscribeData subscribeList).dropLast, true⟩]
  else []

/-- The calls of a step. -/
def requests (q : ClientQuiche Conn) (subscribeList : List String) (r : Receiver Conn) :
    ReceiverLabel → List (Request Conn)
  | .timeout => { r with conn := q.onTimeout r.conn }.asks q subscribeList
  | .wouldBlock => r.asks q subscribeList
  | _ => []

/-- The runs of the client with its calls of `stream_send`. -/
abbrev RequestRuns (q : ClientQuiche Conn) (subscribeList : List String) (conn : Conn)
    (ls : List ReceiverLabel) (r : Receiver Conn) (log : List (Request Conn)) : Prop :=
  Run (Logged (ReceiverStep q subscribeList) (requests q subscribeList)) (Receiver.init conn, []) ls (r, log)

variable {q : ClientQuiche Conn} {subscribeList : List String} {r r' : Receiver Conn} {l : ReceiverLabel}
  {ls : List ReceiverLabel} {log : List (Request Conn)} {conn : Conn}

/-- The request that the client can make: on its stream, with all its commands, on an established
connection. -/
structure Request.OK (q : ClientQuiche Conn) (subscribeList : List String) (request : Request Conn) :
    Prop where
  established : q.isEstablished request.conn = true
  open_ : q.isClosed request.conn = false
  stream : request.stream = httpReqStreamId
  data : request.data = (subscribeData subscribeList).dropLast
  fin : request.fin = true
  names : subscribeList ≠ []

/-- **Nothing was asked yet, or one request was made**; then the client remembers it, or it has
panicked at it. -/
def Asked (q : ClientQuiche Conn) (subscribeList : List String) (r : Receiver Conn)
    (log : List (Request Conn)) : Prop :=
  log = [] ∧ r.reqSent = false ∨
    (∃ request, log = [request] ∧ request.OK q subscribeList) ∧ (r.reqSent = true ∨ r.pc = .panicked)

theorem ne_nil_of_subscribeData (h : subscribeData subscribeList ≠ []) : subscribeList ≠ [] := by
  rintro rfl
  exact h rfl

/-- A step that makes no request. -/
theorem Asked.quiet (hok : Asked q subscribeList r log) (hsent : r'.reqSent = r.reqSent)
    (hpc : r.pc ≠ .panicked) : Asked q subscribeList r' (log ++ []) := by
  rw [List.append_nil]
  rcases hok with ⟨hlog, hno⟩ | ⟨hone, hyes⟩
  · exact Or.inl ⟨hlog, hsent.trans hno⟩
  · exact Or.inr ⟨hone, Or.inl (hsent.trans (hyes.resolve_right hpc))⟩

/-- **Where the request is made.** -/
theorem Asked.request (hok : Asked q subscribeList r log) (hpc : r.pc ≠ .panicked) :
    Asked q subscribeList (r.request q subscribeList) (log ++ r.asks q subscribeList) := by
  unfold Receiver.request Receiver.asks
  by_cases hclosed : q.isClosed r.conn = true
  · rw [if_pos hclosed, if_pos hclosed]
    exact hok.quiet rfl hpc
  · rw [if_neg hclosed, if_neg hclosed]
    by_cases hask : q.isEstablished r.conn = true ∧ ¬ r.reqSent = true
    · by_cases hdata : subscribeData subscribeList = []
      · -- no names: the client panics before the call
        rw [if_pos hask, if_pos hdata, if_neg (fun h => h.2.2 hdata)]
        exact hok.quiet rfl hpc
      · have hlog : log = [] := by
          rcases hok with ⟨hlog, -⟩ | ⟨-, hyes⟩
          · exact hlog
          · exact absurd (hyes.resolve_right hpc) hask.2
        have hrequest : Request.OK q subscribeList
            ⟨r.conn, httpReqStreamId, (subscribeData subscribeList).dropLast, true⟩ :=
          ⟨hask.1, by simpa using hclosed, rfl, rfl, rfl, ne_nil_of_subscribeData hdata⟩
        rw [if_pos hask, if_neg hdata, if_pos ⟨hask.1, hask.2, hdata⟩, hlog]
        refine Or.inr ⟨⟨_, rfl, hrequest⟩, ?_⟩
        cases q.streamSend r.conn httpReqStreamId (subscribeData subscribeList).dropLast true with
        | mk result conn => cases result <;> simp
    · rw [if_neg hask, if_neg (fun h => hask ⟨h.1, h.2.1⟩)]
      exact hok.quiet rfl hpc

theorem reqSent_take {stream : StreamId} {chunk : Bytes} {fin : Bool} :
    (r.take q stream chunk fin).reqSent = r.reqSent := by
  unfold Receiver.take
  dsimp only
  split
  · split <;> rfl
  · rfl

theorem reqSent_flushed {conn : Conn} {ok : Bool} : (r.flushed q conn ok).reqSent = r.reqSent := by
  unfold Receiver.flushed
  split
  · rfl
  · split <;> rfl

/-- **One step** of the client. -/
theorem asked_step (hok : Asked q subscribeList r log) (hst : ReceiverStep q subscribeList r l r') :
    Asked q subscribeList r' (log ++ requests q subscribeList r l) := by
  cases hst with
  | timeout hpc =>
    have hnext : Asked q subscribeList { r with conn := q.onTimeout r.conn } log := hok
    exact hnext.request (by simp [hpc])
  | wouldBlock hpc => exact hok.request (by simp [hpc])
  | events hpc => exact hok.quiet rfl (by simp [hpc])
  | datagram hpc => exact hok.quiet rfl (by simp [hpc])
  | recvFailed hpc => exact hok.quiet rfl (by simp [hpc])
  | chunk hpc hr => exact hok.quiet reqSent_take (by simp [hpc])
  | streamEnd hpc hr => exact hok.quiet rfl (by simp [hpc])
  | flush answers hpc hf => exact hok.quiet reqSent_flushed (by simp [hpc])

theorem asked_run (h : RequestRuns q subscribeList conn ls r log) : Asked q subscribeList r log := by
  refine Run.inv (P := fun y : Receiver Conn × List (Request Conn) => Asked q subscribeList y.1 y.2)
    (Or.inl ⟨rfl, rfl⟩) ?_ h
  rintro ⟨r, log⟩ l ⟨r', log'⟩ hok ⟨hst, hlog⟩
  dsimp only at hst hlog hok ⊢
  rw [hlog]
  exact asked_step hok hst

/-- **Piece by piece** the request is read as its commands. -/
theorem foldl_applySub_subscribeData {cid : ConnectionId} {bufs : List Bytes} {sub : ClientSubscribe}
    (hnames : subscribeList ≠ []) (hplain : ∀ name ∈ subscribeList, Plain name)
    (hp : bufs.flatten = (subscribeData subscribeList).dropLast) (hcut : CutAfterCommands bufs) :
    bufs.foldl (fun sub buf => applySub cid buf sub) sub =
      applyActions cid (subscribeList.map subAction) sub := by
  obtain ⟨init, last, rfl⟩ : ∃ init last, subscribeList = init ++ [last] :=
    ⟨_, _, (List.dropLast_append_getLast hnames).symm⟩
  have htext : fromUtf8 (subscribeData (init ++ [last])).dropLast =
      some (commandText (init.map subAction) ++ subAction last) := by
    rw [dropLast_subscribeData, fromUtf8_utf8]
  have hwhole : applySub cid (subscribeData (init ++ [last])).dropLast sub =
      applyActions cid (split ';' (commandText (init.map subAction) ++ subAction last)) sub := by
    simp only [applySub, htext]
  rw [foldl_applySub bufs hcut _ sub (by rw [hp, htext]), ← hwhole, applySub_subscribeData hplain]

/-- **The request of a client.** In every run of the client, whatever the socket and its
connection do: it calls `stream_send` at most once, on its stream, when the connection is
established, with the commands of all its names and the end of the stream. And if no name has a
`;` or an `@`, then for every server, table and connection id: the loop over the pieces of the
request, if they are cut only after complete commands, subscribes the connection to the names
that are topics and changes nothing else. -/
theorem request_subscribes (h : RequestRuns q subscribeList conn ls r log) :
    (log = [] ∨ ∃ request, log = [request] ∧ request.OK q subscribeList) ∧
    ∀ request ∈ log, (∀ name ∈ subscribeList, Plain name) →
      ∀ {ConnS : Type} {qs : Quiche ConnS} {cid : ConnectionId} {c c' : Client ConnS}
        {sub sub' : ClientSubscribe} {bufs : List Bytes},
        ReadLoop qs cid request.stream (c, sub) bufs (c', sub') → bufs.flatten = request.data →
        CutAfterCommands bufs → ∀ topic, sub'.lookup topic =
          (sub.lookup topic).map fun cids => if topic ∈ subscribeList then insert cid cids else cids := by
  have hone : log = [] ∨ ∃ request, log = [request] ∧ request.OK q subscribeList :=
    (asked_run h).imp And.left And.left
  refine ⟨hone, fun request hm hplain ConnS qs cid c c' sub sub' bufs hloop hdata hcut topic => ?_⟩
  have hok : request.OK q subscribeList := by
    rcases hone with hnil | ⟨request', hlog, hok⟩
    · rw [hnil] at hm
      cases hm
    · rw [hlog] at hm
      rwa [List.mem_singleton.1 hm]
  have hsub : sub' = bufs.foldl (fun sub buf => applySub cid buf sub) sub := readLoop_snd hloop
  rw [hsub, foldl_applySub_subscribeData hok.names hplain (hdata.trans hok.data) hcut]
  exact lookup_applyActions_subAction subscribeList sub hplain

/-- A client of two topics, and a server that gets its request in two pieces. -/
theorem request_subscribes_pieces : ∃ (r : Receiver (List Bytes)) (request : Request (List Bytes)),
    RequestRuns pieceQuiche ["btc", "eth"] [] [.events, .wouldBlock] r [request] ∧
    ∃ c' sub', ReadLoop (sampleQuiche List.length) sampleCid request.stream
      (⟨[utf8 "sub@btc;", utf8 "sub@eth"], ∅, []⟩, twoTopics) [utf8 "sub@btc;", utf8 "sub@eth"] (c', sub') ∧
      sub'.lookup "btc" = some {sampleCid} ∧ sub'.lookup "eth" = some {sampleCid} := by
  set names : List String := ["btc", "eth"]
  set bufs : List Bytes := [utf8 "sub@btc;", utf8 "sub@eth"]
  set request : Request (List Bytes) := ⟨[], httpReqStreamId, (subscribeData names).dropLast, true⟩
  have h₁ : Logged (ReceiverStep pieceQuiche names) (requests pieceQuiche names) (Receiver.init [], [])
      .events ({ Receiver.init [] with pc := .receiving }, []) := ⟨.events rfl, rfl⟩
  have h₂ : Logged (ReceiverStep pieceQuiche names) (requests pieceQuiche names)
      ({ Receiver.init [] with pc := .receiving }, []) .wouldBlock (_, [request]) := ⟨.wouldBlock rfl, rfl⟩
  have hrun : RequestRuns pieceQuiche names [] [.events, .wouldBlock] _ [request] :=
    Run.cons h₁ (Run.single h₂)
  obtain ⟨⟨c', sub'⟩, hloop⟩ := readLoop_sample sampleCid httpReqStreamId List.length
    bufs ⟨bufs, ∅, []⟩ twoTopics rfl
  -- the pieces are the request, cut between its commands
  have hdata : bufs.flatten = request.data := by decide
  have hcut : CutAfterCommands bufs := cutAfterCommands_sample
  have hsub := (request_subscribes hrun).2 request List.mem_cons_self (by decide) hloop hdata hcut
  refine ⟨_, request, hrun, c', sub', hloop, (hsub "btc").trans ?_, (hsub "eth").trans ?_⟩
  · decide
  · decide

end CryptoMarket.Publisher
