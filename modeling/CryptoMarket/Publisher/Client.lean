import CryptoMarket.Lib.Maps
import CryptoMarket.Publisher.Quiche

/-!
# Publisher server: what is done with one client

`handle_writable`, `handle_sub`, `send_package` and the body of `distribute`, on one
client and, for the commands, on the subscription table. A client also carries the list
of its `stream_send` calls with their answers (`Client.writes`); no function of the
server reads it.
-/

namespace CryptoMarket.Publisher

/-- A response that was not written in full. -/
structure PartialResponse where
  body : Bytes
  written : ℕ
  deriving DecidableEq

/-- A call of `stream_send` and its answer. -/
structure Write where
  stream : StreamId
  data : Bytes
  fin : Bool
  answer : Except Error ℕ

/-- A client, with the calls of `stream_send` on its connection. -/
structure Client (Conn : Type) where
  conn : Conn
  partialResponses : HashMap StreamId PartialResponse
  writes : List Write

/-- `CLIENT_LIST` -/
abbrev ClientList (Conn : Type) := HashMap ConnectionId (Client Conn)

/-- `CLIENT_SUBSCRIBE` -/
abbrev ClientSubscribe := HashMap String (HashSet ConnectionId)

variable {Conn : Type} (q : Quiche Conn)

/-- `stream_send` on a client's connection. -/
def Client.streamSend (stream : StreamId) (data : Bytes) (fin : Bool) (client : Client Conn) :
    Except Error ℕ × Client Conn :=
  let (answer, conn) := q.streamSend client.conn stream data fin
  (answer, { client with conn, writes := client.writes ++ [⟨stream, data, fin, answer⟩] })

/-- `handle_writable`; no value if the slice `body[written..]` is out of range. -/
def handleWritable (client : Client Conn) (streamId : StreamId) : Option (Client Conn) :=
  match client.partialResponses.lookup streamId with
  | none => some client
  | some resp =>
    if resp.body.length < resp.written then none
    else
      let finish (written : ℕ) (client : Client Conn) : Client Conn :=
        let resp := { resp with written := resp.written + written }
        { client with partialResponses :=
            if resp.written = resp.body.length then client.partialResponses.erase streamId
            else client.partialResponses.insert streamId resp }
      match client.streamSend q streamId (resp.body.drop resp.written) true with
      | (.ok v, client) => some (finish v client)
      | (.error .done, client) => some (finish 0 client)
      | (.error _, client) =>
        some { client with partialResponses := client.partialResponses.erase streamId }

/-! ## Commands -/

/-- One command of `handle_sub`: the message for the log or the error for the client, and
the table afterwards. -/
def subCommand (cid : ConnectionId) (action topic : String) (sub : ClientSubscribe) :
    Except String String × ClientSubscribe :=
  match action with
  | "sub" =>
    match sub.lookup topic with
    | some clientSubList => (.ok "Success sub", sub.insert topic (insert cid clientSubList))
    | none => (.error "Subscription does not exist", sub)
  | "unsub" =>
    match sub.lookup topic with
    | some clientSubList => (.ok "Success nusub", sub.insert topic (clientSubList.erase cid))
    | none => (.error "Subscription does not exist", sub)
  | _ => (.error "error: Non-existent Action", sub)

/-- The errors of `handle_sub`. -/
def subErrors : List String := ["Subscription does not exist", "error: Non-existent Action"]

/-- The reply to a command that failed. -/
def errorReply (msg : String) : Bytes := utf8 ("ERROR: " ++ msg)

/-- The loop of `handle_sub` over the actions: it ends at the first that is not of the
form `_@_`. -/
def runActions (writeStreamId : StreamId) (cid : ConnectionId) :
    List String → Client Conn × ClientSubscribe → Client Conn × ClientSubscribe
  | [], st => st
  | action :: actions, (client, sub) =>
    match split '@' action with
    | [name, topic] =>
      let (msg, sub) := subCommand cid name topic sub
      match msg with
      | .error msg => runActions writeStreamId cid actions
          ((client.streamSend q writeStreamId (errorReply msg) false).2, sub)
      | .ok _ => runActions writeStreamId cid actions (client, sub)
    | _ => (client, sub)

/-- `handle_sub` -/
def handleSub (writeStreamId : StreamId) (buf : Bytes) (cid : ConnectionId)
    (st : Client Conn × ClientSubscribe) : Client Conn × ClientSubscribe :=
  match fromUtf8 buf with
  | none => st
  | some actions => runActions q writeStreamId cid (split ';' actions) st

/-! ## Writing -/

/-- What `socket.send_to` answers. -/
inductive SocketAnswer where
  | sent
  | wouldBlock
  | failed
  deriving DecidableEq, Repr

/-- `send_package`, with what the socket answers to each datagram; `false` if it panics,
no value if there are more datagrams than answers. -/
def sendPackage : List SocketAnswer → Client Conn → Option (Client Conn × Bool)
  | answers, client =>
    match q.send client.conn with
    | (.error .done, conn) => some ({ client with conn }, true)
    | (.error _, conn) => some ({ client with conn := q.close conn false 1 (utf8 "fail") }, true)
    | (.ok _, conn) =>
      match answers with
      | [] => none
      | .sent :: answers => sendPackage answers { client with conn }
      | .wouldBlock :: _ => some ({ client with conn }, true)
      | .failed :: _ => some ({ client with conn }, false)

/-- The loop of `distribute` over the writable streams of a client. -/
def writeData (data : Bytes) (client : Client Conn) : Client Conn :=
  (q.writable client.conn).foldl (fun client streamId => (client.streamSend q streamId data false).2)
    client

/-! ## What they leave alone -/

variable {q} {client client' : Client Conn} {sub : ClientSubscribe} {cid : ConnectionId}

theorem handleWritable_empty (h : client.partialResponses = ∅) (streamId : StreamId) :
    handleWritable q client streamId = some client := by
  unfold handleWritable
  rw [h, Finmap.lookup_empty]

/-- With no partial response, the loop over the writable streams does nothing. -/
theorem handleWritable_all (h : client.partialResponses = ∅) (streams : List StreamId) :
    streams.foldlM (handleWritable q) client = some client := by
  induction streams with
  | nil => rfl
  | cons s streams ih =>
    rw [List.foldlM_cons, handleWritable_empty h]
    exact ih

theorem sendPackage_frame : ∀ (answers : List SocketAnswer) {client client' : Client Conn} {ok : Bool},
    sendPackage q answers client = some (client', ok) →
      client'.partialResponses = client.partialResponses ∧ client'.writes = client.writes := by
  intro answers
  induction answers with
  | nil =>
    intro client client' ok h
    unfold sendPackage at h
    split at h <;> simp only [Option.some.injEq, Prod.mk.injEq, reduceCtorEq] at h <;>
      obtain ⟨rfl, -⟩ := h <;> exact ⟨rfl, rfl⟩
  | cons a answers ih =>
    intro client client' ok h
    unfold sendPackage at h
    split at h
    · simp only [Option.some.injEq, Prod.mk.injEq] at h
      obtain ⟨rfl, -⟩ := h
      exact ⟨rfl, rfl⟩
    · simp only [Option.some.injEq, Prod.mk.injEq] at h
      obtain ⟨rfl, -⟩ := h
      exact ⟨rfl, rfl⟩
    · cases a with
      | sent =>
        obtain ⟨h1, h2⟩ := ih h
        exact ⟨h1, h2⟩
      | wouldBlock =>
        simp only [Option.some.injEq, Prod.mk.injEq] at h
        obtain ⟨rfl, -⟩ := h
        exact ⟨rfl, rfl⟩
      | failed =>
        simp only [Option.some.injEq, Prod.mk.injEq] at h
        obtain ⟨rfl, -⟩ := h
        exact ⟨rfl, rfl⟩

/-- A command fails with one of the errors. -/
theorem subCommand_error {action topic msg : String}
    (h : (subCommand cid action topic sub).1 = .error msg) : msg ∈ subErrors := by
  unfold subCommand at h
  have hno : "Subscription does not exist" ∈ subErrors := by simp [subErrors]
  split at h
  · cases hl : sub.lookup topic with
    | none =>
      rw [hl] at h
      obtain rfl := Except.error.inj h
      exact hno
    | some l => rw [hl] at h; cases h
  · cases hl : sub.lookup topic with
    | none =>
      rw [hl] at h
      obtain rfl := Except.error.inj h
      exact hno
    | some l => rw [hl] at h; cases h
  · obtain rfl := Except.error.inj h
    simp [subErrors]

/-- What a command does to one topic. -/
def commandSet (cid : ConnectionId) (name : String) (cids : HashSet ConnectionId) :
    HashSet ConnectionId :=
  if name = "sub" then insert cid cids else if name = "unsub" then cids.erase cid else cids

theorem mem_commandSet {i : ConnectionId} {name : String} {cids : HashSet ConnectionId} :
    i ∈ commandSet cid name cids ↔
    if i = cid ∧ name = "sub" then True else i ∈ cids ∧ ¬ (i = cid ∧ name = "unsub") := by
  unfold commandSet
  by_cases hsub : name = "sub"
  · by_cases hi : i = cid <;> simp [hsub, hi]
  · by_cases hunsub : name = "unsub"
    · rw [if_neg hsub, if_pos hunsub, if_neg fun h => hsub h.2, Finset.mem_erase]
      simp [hunsub, and_comm]
    · simp [hsub, hunsub]

/-- **A command changes its topic only.** -/
theorem lookup_subCommand_eq {name topic t : String} : (subCommand cid name topic sub).2.lookup t =
    (sub.lookup t).map fun cids => if t = topic then commandSet cid name cids else cids := by
  have hins : ∀ cids : HashSet ConnectionId, sub.lookup topic = some cids →
      (sub.insert topic (commandSet cid name cids)).lookup t =
        (sub.lookup t).map fun cids => if t = topic then commandSet cid name cids else cids := by
    intro cids hl
    rw [HashMap.lookup_insert_eq]
    by_cases ht : t = topic
    · rw [if_pos ht, ht, hl]; simp
    · simp [ht]
  -- a topic that is not there, or a name that is no command
  have hnone : (t = topic → ∀ cids, sub.lookup t = some cids → commandSet cid name cids = cids) →
      sub.lookup t =
        (sub.lookup t).map fun cids => if t = topic then commandSet cid name cids else cids := by
    intro h
    cases hl : sub.lookup t with
    | none => rfl
    | some cids =>
      rw [Option.map_some]
      split
      · rename_i ht
        rw [h ht cids hl]
      · rfl
  unfold subCommand
  split
  · cases hl : sub.lookup topic with
    | none => exact hnone fun ht cids h => by rw [ht, hl] at h; cases h
    | some cids => exact hins cids hl
  · cases hl : sub.lookup topic with
    | none => exact hnone fun ht cids h => by rw [ht, hl] at h; cases h
    | some cids => exact hins cids hl
  · rename_i h₁ h₂
    refine hnone fun _ cids _ => ?_
    rw [commandSet, if_neg h₁, if_neg h₂]

/-- **A command puts no other connection into a topic.** -/
theorem lookup_subCommand {action topic t : String} {l' : HashSet ConnectionId}
    (h : (subCommand cid action topic sub).2.lookup t = some l') :
    ∃ l, sub.lookup t = some l ∧ ∀ c ∈ l', c ∈ l ∨ c = cid := by
  rw [lookup_subCommand_eq] at h
  obtain ⟨l, hl, rfl⟩ := Option.map_eq_some_iff.1 h
  refine ⟨l, hl, fun c hc => ?_⟩
  split at hc
  · rw [mem_commandSet] at hc
    by_cases heq : c = cid
    · exact Or.inr heq
    · rw [if_neg fun h => heq h.1] at hc
      exact Or.inl hc.1
  · exact Or.inl hc

end CryptoMarket.Publisher
