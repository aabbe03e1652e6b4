import CryptoMarket.Lib.Locks
import CryptoMarket.Lib.Run
import CryptoMarket.Publisher.Client

/-!
# Publisher server: the threads

`create_server` starts three threads, `server_connection`, `server_alive_check` and
`server_send`; the last one spawns a forwarder task for each topic, which calls
`distribute` for each message. They share `CLIENT_LIST` and `CLIENT_SUBSCRIBE`, each
behind a mutex. A mutex whose holder panics is poisoned.

`Step` moves one thread from one lock operation, read or send to the next. What a thread
does to a table happens while it holds the table's mutex (`Pc.Holds`).

Not modelled: the log, the text of packets sent by `send_package`, the timing of the
alive check and how a forwarder connects to its ipc.
-/

namespace CryptoMarket.Publisher

variable {Conn : Type}

/-! ## One packet -/

/-- What `server_connection` decides on a packet's header. -/
inductive Routed (Conn : Type) where
  | dropped (error : String)
  | negotiate (out : Bytes)
  | retry (token out : Bytes)
  | accept (token : Bytes) (odcid scid : ConnectionId) (conn : Conn)
  | known (cid : ConnectionId)
  /-- An `unwrap` fails. -/
  | panicked

/-- The lookup of the client of a packet. The source id of a new connection is the packet's
destination id; it is compared in length with an array of `maxConnIdLen` bytes. -/
def route (q : Quiche Conn) (clients : ClientList Conn) (hdr : Header) (src : SocketAddr) :
    Routed Conn :=
  let connId := q.connId hdr.dcid
  if hdr.dcid ∉ clients ∧ connId ∉ clients then
    if hdr.ty ≠ .initial then .dropped "Packet is not Initial"
    else if ¬ q.versionIsSupported hdr.version then
      match q.negotiateVersion hdr.scid hdr.dcid with
      | some out => .negotiate out
      | none => .panicked
    else
      match hdr.token with
      | none => .panicked
      | some token =>
        if token.isEmpty then
          let newToken := mintToken hdr src
          match q.retry hdr.scid hdr.dcid connId newToken hdr.version with
          | some out => .retry newToken out
          | none => .panicked
        else
          match validateToken src token with
          | none => .dropped "Invalid address validation token"
          | some odcid =>
            if maxConnIdLen ≠ hdr.dcid.length then .dropped "Invalid destination connection ID"
            else
              match q.accept hdr.dcid odcid src with
              | some conn => .accept token odcid hdr.dcid conn
              | none => .panicked
  else if hdr.dcid ∈ clients then .known hdr.dcid
  else .known connId

/-- What a packet leads to. -/
inductive PacketEvent where
  | dropped (error : String)
  | negotiated
  /-- A Retry with this token goes to the source of the packet. -/
  | retried (token : Bytes)
  /-- `quiche::accept` for a packet with this token. -/
  | accepted (token : Bytes) (odcid scid : ConnectionId)
  | known (cid : ConnectionId)
  | panicked
  deriving DecidableEq

/-! ## Threads -/

/-- The two mutexes. -/
inductive Lock where
  | clientList
  | clientSubscribe
  deriving DecidableEq

/-- The threads; the forwarders are tasks. -/
inductive Thread where
  | connection
  | aliveCheck
  | send
  | forwarder (topic : String)
  deriving DecidableEq

/-- Where a thread is. -/
inductive Pc where
  /-- At `poll.poll`. -/
  | polling
  /-- At the lock of `CLIENT_LIST`, before the next packet. -/
  | lockList
  /-- At `socket.recv_from`. -/
  | receiving
  /-- In the loops over these readable streams; then at `send_package`. -/
  | reading (cid : ConnectionId) (streams : List StreamId)
  /-- In `handle_sub`, at the lock of `CLIENT_SUBSCRIBE`. -/
  | lockSub (cid : ConnectionId) (stream : StreamId) (actions : String) (streams : List StreamId)
  /-- In the loop of `handle_sub`. -/
  | handling (cid : ConnectionId) (stream : StreamId) (actions : String) (streams : List StreamId)
  | sleeping
  /-- `server_alive_check` at the lock of `CLIENT_LIST`. -/
  | checkList
  /-- `server_alive_check` at the lock of `CLIENT_SUBSCRIBE`. -/
  | checkSub
  /-- At `retain`. -/
  | collecting
  /-- `server_send` at the lock of `CLIENT_SUBSCRIBE`. -/
  | sendLock
  /-- `server_send` inserting the topics and spawning the forwarders. -/
  | registering
  | sent
  /-- A forwarder between messages. -/
  | idle
  /-- `distribute` at the lock of `CLIENT_SUBSCRIBE`. -/
  | distSub (data : Bytes)
  /-- `distribute` at the lock of `CLIENT_LIST`. -/
  | distList (data : Bytes)
  /-- In the loop of `distribute`, with these clients left. -/
  | sending (data : Bytes) (rest : List ConnectionId)
  | dead
  deriving DecidableEq

/-- The mutexes a thread holds. -/
def Pc.held : Pc → List Lock
  | .receiving | .reading _ _ | .lockSub _ _ _ _ | .checkSub => [.clientList]
  | .registering | .distList _ => [.clientSubscribe]
  | .handling _ _ _ _ | .collecting | .sending _ _ => [.clientList, .clientSubscribe]
  | _ => []

/-- The mutex a thread waits for. -/
def Pc.wanted : Pc → Option Lock
  | .lockList | .checkList | .distList _ => some .clientList
  | .lockSub _ _ _ _ | .checkSub | .sendLock | .distSub _ => some .clientSubscribe
  | _ => none

/-- A thread at `p` holds `m`. -/
def Pc.Holds (p : Pc) (m : Lock) : Prop := m ∈ p.held

instance (p : Pc) (m : Lock) : Decidable (p.Holds m) := inferInstanceAs (Decidable (m ∈ p.held))

/-- A thread at `p` waits for `m`. -/
def Pc.Waits (p : Pc) (m : Lock) : Prop := p.wanted = some m

instance (p : Pc) (m : Lock) : Decidable (p.Waits m) := inferInstanceAs (Decidable (p.wanted = some m))

/-- The server. -/
structure Server (Conn : Type) where
  clientList : ClientList Conn
  clientSubscribe : ClientSubscribe
  poisoned : Lock → Bool
  pc : Thread → Pc
  /-- `server_send` has spawned the forwarders. -/
  spawned : Bool

/-- Before the threads run. -/
def Server.init (Conn : Type) : Server Conn where
  clientList := ∅
  clientSubscribe := ∅
  poisoned _ := false
  pc
    | .connection => .polling
    | .aliveCheck => .sleeping
    | .send => .sendLock
    | .forwarder _ => .idle
  spawned := false

/-- The server with a thread at another point. -/
def Server.goto (s : Server Conn) (t : Thread) (p : Pc) : Server Conn :=
  { s with pc := Function.update s.pc t p }

/-- A thread panics: it is gone and the mutexes it holds are poisoned. -/
def Server.panic (s : Server Conn) (t : Thread) : Server Conn :=
  { s.goto t .dead with poisoned := fun m => s.poisoned m || m ∈ (s.pc t).held }

/-- The server with another state of one client. -/
def Server.setClient (s : Server Conn) (cid : ConnectionId) (client : Client Conn) : Server Conn :=
  { s with clientList := s.clientList.insert cid client }

/-- The mutex can be taken. -/
def Server.Free (s : Server Conn) (m : Lock) : Prop := CryptoMarket.Free Pc.Holds s.pc m

/-- A packet of a client, up to the loops over its readable streams. -/
def Server.process (q : Quiche Conn) (cid : ConnectionId) (client : Client Conn) (pkt : Bytes)
    (src : SocketAddr) (s : Server Conn) : Server Conn :=
  match q.recv client.conn pkt src with
  | (.error _, conn) => (s.setClient cid { client with conn }).goto .connection .lockList
  | (.ok _, conn) =>
    if q.isInEarlyData conn ∨ q.isEstablished conn then
      match (q.writable conn).foldlM (handleWritable q) { client with conn } with
      | none => (s.setClient cid { client with conn }).panic .connection
      | some client =>
        (s.setClient cid client).goto .connection (.reading cid (q.readable client.conn))
    else (s.setClient cid { client with conn }).goto .connection (.reading cid [])

/-- After `socket.send_to` in `server_connection`. -/
def Server.answered (s : Server Conn) : SocketAnswer → Server Conn
  | .sent => s.goto .connection .lockList
  | .wouldBlock => s.goto .connection .polling
  | .failed => s.panic .connection

/-- One packet: what it leads to and the server afterwards. -/
def Server.receive (q : Quiche Conn) (pkt : Bytes) (src : SocketAddr) (answer : SocketAnswer)
    (s : Server Conn) : PacketEvent × Server Conn :=
  match q.headerFromSlice pkt maxConnIdLen with
  | none => (.dropped "Parsing packet header failed", s.goto .connection .lockList)
  | some hdr =>
    match route q s.clientList hdr src with
    | .dropped error => (.dropped error, s.goto .connection .lockList)
    | .negotiate _ => (.negotiated, s.answered answer)
    | .retry token _ => (.retried token, s.answered answer)
    | .accept token odcid scid conn =>
      (.accepted token odcid scid, s.process q scid ⟨conn, ∅, []⟩ pkt src)
    | .known cid =>
      match s.clientList.lookup cid with
      | some client => (.known cid, s.process q cid client pkt src)
      | none => (.panicked, s.panic .connection)
    | .panicked => (.panicked, s.panic .connection)

/-- `server_send` inserts the topics. -/
def registerTopics (ipcs : List String) (sub : ClientSubscribe) : ClientSubscribe :=
  ipcs.foldl (fun sub ipc => sub.insert ipc ∅) sub

/-- `retain` in `server_alive_check`: the clients that are not closed. -/
def retainClients (q : Quiche Conn) (clients : ClientList Conn) : ClientList Conn :=
  HashMap.filter (fun c => !q.isClosed c.conn) clients

/-- The subscriptions of the clients that are not closed. -/
def retainSubs (q : Quiche Conn) (clients : ClientList Conn) (sub : ClientSubscribe) : ClientSubscribe :=
  HashMap.mapValues (fun cids => cids.filter fun cid =>
    ((clients.lookup cid).map fun c => !q.isClosed c.conn).getD true) sub

/-- What a step is about. -/
inductive Label where
  | poll
  | lockList
  | wouldBlock
  | recvFailed
  | packet (pkt : Bytes) (src : SocketAddr) (event : PacketEvent)
  /-- The bytes read, if any. -/
  | streamRecv (read : Option Bytes)
  | lockSub
  | handle
  | sendPackage
  | wake
  | checkList
  | checkSub
  | retain
  | sendLock
  | register
  | message (topic : String) (data : Bytes)
  | disconnect (topic : String)
  | distSub (topic : String)
  | distList (topic : String)
  | deliver (topic : String)
  | unlock (topic : String)
  deriving DecidableEq

/-- What `distribute` does with one client. -/
def deliverTo (q : Quiche Conn) (data : Bytes) (answers : List SocketAnswer) (client : Client Conn) :
    Option (Client Conn × Bool) :=
  if q.isEstablished client.conn then sendPackage q answers (writeData q data client)
  else some (client, true)

/-- **The steps of the threads**, for the topics `ipcs`; `rt`: the thread of `server_send` can
spawn tasks. -/
inductive Step (q : Quiche Conn) (ipcs : List String) (rt : Bool) (s : Server Conn) :
    Label → Server Conn → Prop
  | poll : s.pc .connection = .polling → Step q ipcs rt s .poll (s.goto .connection .lockList)
  | lockList : s.pc .connection = .lockList → s.Free .clientList →
      Step q ipcs rt s .lockList
        (if s.poisoned .clientList then s.panic .connection else s.goto .connection .receiving)
  | wouldBlock : s.pc .connection = .receiving →
      Step q ipcs rt s .wouldBlock (s.goto .connection .polling)
  | recvFailed : s.pc .connection = .receiving →
      Step q ipcs rt s .recvFailed (s.panic .connection)
  | packet {pkt src} (answer : SocketAnswer) : s.pc .connection = .receiving →
      Step q ipcs rt s (.packet pkt src (s.receive q pkt src answer).1) (s.receive q pkt src answer).2
  /-- `stream_recv` gives an error: the next stream. -/
  | streamEnd {cid stream streams client error conn} :
      s.pc .connection = .reading cid (stream :: streams) → s.clientList.lookup cid = some client →
      q.streamRecv client.conn stream = (.error error, conn) →
      Step q ipcs rt s (.streamRecv none)
        ((s.setClient cid { client with conn }).goto .connection (.reading cid streams))
  | streamRead {cid stream streams client buf fin conn} :
      s.pc .connection = .reading cid (stream :: streams) → s.clientList.lookup cid = some client →
      q.streamRecv client.conn stream = (.ok (buf, fin), conn) →
      Step q ipcs rt s (.streamRecv (some buf))
        ((s.setClient cid { client with conn }).goto .connection (match fromUtf8 buf with
          | some actions => .lockSub cid stream actions streams
          | none => .reading cid (stream :: streams)))
  | lockSub {cid stream actions streams} : s.pc .connection = .lockSub cid stream actions streams →
      s.Free .clientSubscribe →
      Step q ipcs rt s .lockSub
        (if s.poisoned .clientSubscribe then s.panic .connection
          else s.goto .connection (.handling cid stream actions streams))
  | handle {cid stream actions streams client client' sub} :
      s.pc .connection = .handling cid stream actions streams → s.clientList.lookup cid = some client →
      runActions q stream cid (split ';' actions) (client, s.clientSubscribe) = (client', sub) →
      Step q ipcs rt s .handle
        { (s.setClient cid client').goto .connection (.reading cid (stream :: streams)) with
          clientSubscribe := sub }
  | sendPackage {cid client client' ok} (answers : List SocketAnswer) :
      s.pc .connection = .reading cid [] → s.clientList.lookup cid = some client →
      sendPackage q answers client = some (client', ok) →
      Step q ipcs rt s .sendPackage
        (if ok then (s.setClient cid client').goto .connection .lockList
          else (s.setClient cid client').panic .connection)
  | wake : s.pc .aliveCheck = .sleeping → Step q ipcs rt s .wake (s.goto .aliveCheck .checkList)
  | checkList : s.pc .aliveCheck = .checkList → s.Free .clientList →
      Step q ipcs rt s .checkList
        (s.goto .aliveCheck (if s.poisoned .clientList then .sleeping else .checkSub))
  | checkSub : s.pc .aliveCheck = .checkSub → s.Free .clientSubscribe →
      Step q ipcs rt s .checkSub
        (s.goto .aliveCheck (if s.poisoned .clientSubscribe then .sleeping else .collecting))
  | retain : s.pc .aliveCheck = .collecting →
      Step q ipcs rt s .retain { s.goto .aliveCheck .sleeping with
        clientList := retainClients q s.clientList
        clientSubscribe := retainSubs q s.clientList s.clientSubscribe }
  | sendLock : s.pc .send = .sendLock → s.Free .clientSubscribe →
      Step q ipcs rt s .sendLock
        (if s.poisoned .clientSubscribe then s.panic .send else s.goto .send .registering)
  /-- Outside of a runtime the first `tokio::task::spawn` panics. -/
  | register : s.pc .send = .registering →
      Step q ipcs rt s .register
        (let s := { s with clientSubscribe := registerTopics ipcs s.clientSubscribe }
          if rt ∨ ipcs = [] then { s.goto .send .sent with spawned := true }
          else s.panic .send)
  /-- A message of the ipc: `distribute` is called. -/
  | message {topic data} : s.pc (.forwarder topic) = .idle → s.spawned = true →
      topic ∈ s.clientSubscribe →
      Step q ipcs rt s (.message topic data) (s.goto (.forwarder topic) (.distSub data))
  /-- The subscriber of the ipc fails and the task ends. -/
  | disconnect {topic} : s.pc (.forwarder topic) = .idle → s.spawned = true →
      Step q ipcs rt s (.disconnect topic) (s.goto (.forwarder topic) .dead)
  | distSub {topic data} : s.pc (.forwarder topic) = .distSub data → s.Free .clientSubscribe →
      Step q ipcs rt s (.distSub topic) (s.goto (.forwarder topic)
        (if s.poisoned .clientSubscribe = false ∧ topic ∈ s.clientSubscribe then .distList data
          else .idle))
  | distList {topic data cids} {rest : List ConnectionId} :
      s.pc (.forwarder topic) = .distList data → s.Free .clientList →
      s.clientSubscribe.lookup topic = some cids → cids.Walks rest →
      Step q ipcs rt s (.distList topic)
        (if s.poisoned .clientList then s.panic (.forwarder topic)
          else s.goto (.forwarder topic) (.sending data rest))
  | deliver {topic data cid rest client client' ok} (answers : List SocketAnswer) :
      s.pc (.forwarder topic) = .sending data (cid :: rest) → s.clientList.lookup cid = some client →
      deliverTo q data answers client = some (client', ok) →
      Step q ipcs rt s (.deliver topic)
        (if ok then (s.setClient cid client').goto (.forwarder topic) (.sending data rest)
          else (s.setClient cid client').panic (.forwarder topic))
  /-- `clients.get_mut(cid).unwrap()` fails. -/
  | missing {topic data cid rest} : s.pc (.forwarder topic) = .sending data (cid :: rest) →
      s.clientList.lookup cid = none →
      Step q ipcs rt s (.deliver topic) (s.panic (.forwarder topic))
  | unlock {topic data} : s.pc (.forwarder topic) = .sending data [] →
      Step q ipcs rt s (.unlock topic) (s.goto (.forwarder topic) .idle)

/-- The runs of the server. -/
abbrev Runs (q : Quiche Conn) (ipcs : List String) (rt : Bool) : List Label → Server Conn → Prop :=
  Run (Step q ipcs rt) (Server.init Conn)

end CryptoMarket.Publisher
