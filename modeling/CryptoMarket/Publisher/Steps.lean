import CryptoMarket.Publisher.Server

/-!
# Publisher server: what one step can do

* `Step.moves`: a step moves one thread, which takes only free mutexes and works only on
  clients it has looked up.
* `Step.touches`: a step leaves both tables alone, or changes one client, or adds one,
  or runs the commands of one, or is the alive check's `retain` or the registration of
  the topics.

Every invariant of the server follows from these two.
-/

namespace CryptoMarket.Publisher

variable {Conn : Type} {q : Quiche Conn} {ipcs : List String} {rt : Bool} {s s' : Server Conn}
  {l : Label} {t : Thread} {p : Pc} {cid : ConnectionId} {c c' c'' : Client Conn}

/-! ## Clients -/

/-- A write of data with property `P`, with the answer of the transport. -/
def Write.Of (q : Quiche Conn) (P : Bytes → Prop) (w : Write) : Prop :=
  P w.data ∧ w.fin = false ∧ ∃ conn, (q.streamSend conn w.stream w.data w.fin).1 = w.answer

/-- A client later: only writes of data with property `P` were added. -/
structure Client.Grows (q : Quiche Conn) (P : Bytes → Prop) (c c' : Client Conn) : Prop where
  responses : c'.partialResponses = c.partialResponses
  writes : ∃ ws, c'.writes = c.writes ++ ws ∧ ∀ w ∈ ws, w.Of q P

variable {P : Bytes → Prop}

theorem Client.Grows.refl (h1 : c'.partialResponses = c.partialResponses) (h2 : c'.writes = c.writes) :
    c.Grows q P c' := ⟨h1, [], by simp [h2], by simp⟩

theorem Client.Grows.trans (h : c.Grows q P c') (h' : c'.Grows q P c'') : c.Grows q P c'' := by
  obtain ⟨hr, ws, hw, hP⟩ := h
  obtain ⟨hr', ws', hw', hP'⟩ := h'
  refine ⟨hr'.trans hr, ws ++ ws', by rw [hw', hw, List.append_assoc], fun w hm => ?_⟩
  rcases List.mem_append.1 hm with hm | hm
  · exact hP w hm
  · exact hP' w hm

theorem grows_streamSend (stream : StreamId) {data : Bytes} (hP : P data) :
    c.Grows q P (c.streamSend q stream data false).2 :=
  ⟨rfl, [_], rfl, fun w hw => by
    rw [List.mem_singleton.1 hw]
    exact ⟨hP, rfl, c.conn, rfl⟩⟩

theorem grows_writeData {data : Bytes} (hP : P data) : c.Grows q P (writeData q data c) := by
  have key : ∀ (streams : List StreamId) (c' : Client Conn), c.Grows q P c' →
      c.Grows q P (streams.foldl (fun c s => (c.streamSend q s data false).2) c') := by
    intro streams
    induction streams with
    | nil => intro c' h; exact h
    | cons stream streams ih => intro c' h; exact ih _ (h.trans (grows_streamSend stream hP))
  exact key _ c (.refl rfl rfl)

theorem grows_sendPackage {answers : List SocketAnswer} {ok : Bool}
    (h : sendPackage q answers c = some (c', ok)) : c.Grows q P c' :=
  .refl (sendPackage_frame answers h).1 (sendPackage_frame answers h).2

theorem grows_deliverTo {answers : List SocketAnswer} {ok : Bool} {data : Bytes} (hP : P data)
    (h : deliverTo q data answers c = some (c', ok)) : c.Grows q P c' := by
  unfold deliverTo at h
  split at h
  · exact (grows_writeData hP).trans (grows_sendPackage h)
  · obtain ⟨rfl, -⟩ := Prod.mk.inj (Option.some.inj h)
    exact .refl rfl rfl

theorem grows_runActions {stream : StreamId} (hP : ∀ msg ∈ subErrors, P (errorReply msg)) :
    ∀ (actions : List String) (c : Client Conn) (sub : ClientSubscribe),
      c.Grows q P (runActions q stream cid actions (c, sub)).1 := by
  intro actions
  induction actions with
  | nil => intro c sub; exact .refl rfl rfl
  | cons action actions ih =>
    intro c sub
    unfold runActions
    split
    · dsimp only
      split
      · -- a failed command is answered on the stream
        rename_i herr
        exact (grows_streamSend stream (hP _ (subCommand_error herr))).trans (ih _ _)
      · exact ih _ _
    · exact .refl rfl rfl

/-! ## Moves -/

/-- The connection ids that a thread works on. -/
def Pc.refs : Pc → List ConnectionId
  | .reading cid _ | .lockSub cid _ _ _ | .handling cid _ _ _ => [cid]
  | .sending _ rest => rest
  | _ => []

/-- The message that a forwarder distributes. -/
def Pc.message : Pc → Option Bytes
  | .distSub data | .distList data | .sending data _ => some data
  | _ => none

theorem Pc.holds_of_refs (h : cid ∈ p.refs) : p.Holds .clientList := by
  cases p <;> simp_all [Pc.refs, Pc.Holds, Pc.held]

/-- Thread `t` moves to `p`. -/
structure Moves (s : Server Conn) (l : Label) (s' : Server Conn) (t : Thread) (p : Pc) : Prop where
  pc : s'.pc = Function.update s.pc t p
  locks : ∀ m, p.Holds m → (s.pc t).Holds m ∨ s.Free m
  refs : ∀ cid ∈ p.refs, cid ∈ (s.pc t).refs ∨ cid ∈ s'.clientList ∨
    ∃ topic cids, s.clientSubscribe.lookup topic = some cids ∧ cid ∈ cids
  message : ∀ d, p.message = some d → (s.pc t).message = some d ∨ ∃ topic, l = .message topic d

/-- A move to a point that holds, refers to and carries nothing. -/
theorem Moves.free (hpc : s'.pc = Function.update s.pc t p) (hl : p.held = []) (hr : p.refs = [])
    (hm : p.message = none) : Moves s l s' t p :=
  ⟨hpc, by simp [Pc.Holds, hl], by simp [hr], by simp [hm]⟩

/-- A move that keeps the mutexes it needs, on clients in the list. -/
theorem Moves.keep (hpc : s'.pc = Function.update s.pc t p) (hl : ∀ m ∈ p.held, m ∈ (s.pc t).held)
    (hr : ∀ cid ∈ p.refs, cid ∈ (s.pc t).refs ∨ cid ∈ s'.clientList)
    (hm : ∀ d, p.message = some d → (s.pc t).message = some d) : Moves s l s' t p :=
  ⟨hpc, fun m h => Or.inl (hl m h), fun cid h => (hr cid h).imp_right Or.inl, fun d h => Or.inl (hm d h)⟩

/-- A move that takes a free mutex. -/
theorem Moves.lock {m : Lock} (hpc : s'.pc = Function.update s.pc t p) (hf : s.Free m)
    (hl : ∀ m' ∈ p.held, m' ∈ (s.pc t).held ∨ m' = m)
    (hr : ∀ cid ∈ p.refs, cid ∈ (s.pc t).refs ∨
      ∃ topic cids, s.clientSubscribe.lookup topic = some cids ∧ cid ∈ cids)
    (hm : ∀ d, p.message = some d → (s.pc t).message = some d) : Moves s l s' t p where
  pc := hpc
  locks m' h := (hl m' h).imp_right fun heq : m' = m => heq ▸ hf
  refs cid h := (hr cid h).imp_right Or.inr
  message d h := Or.inl (hm d h)

/-- The clients any thread works on after a move. -/
theorem Moves.refs_of {u : Thread} (h : Moves s l s' t p) (hcid : cid ∈ (s'.pc u).refs) :
    cid ∈ (s.pc u).refs ∨ cid ∈ s'.clientList ∨
      ∃ topic cids, s.clientSubscribe.lookup topic = some cids ∧ cid ∈ cids := by
  rw [h.pc] at hcid
  by_cases hu : u = t
  · rw [hu, Function.update_self] at hcid
    rw [hu]
    exact h.refs cid hcid
  · rw [Function.update_of_ne hu] at hcid
    exact Or.inl hcid

/-- The message any thread has after a move. -/
theorem Moves.message_of {u : Thread} {d : Bytes} (h : Moves s l s' t p)
    (hd : (s'.pc u).message = some d) : (s.pc u).message = some d ∨ ∃ topic, l = .message topic d := by
  rw [h.pc] at hd
  by_cases hu : u = t
  · rw [hu, Function.update_self] at hd
    rw [hu]
    exact h.message d hd
  · rw [Function.update_of_ne hu] at hd
    exact Or.inl hd

theorem moves_process (pkt : Bytes) (src : SocketAddr) (hpc : s.pc .connection = .receiving) :
    ∃ t p, Moves s l (s.process q cid c pkt src) t p := by
  unfold Server.process
  split
  · exact ⟨.connection, .lockList, .free rfl rfl rfl rfl⟩
  · split
    · split
      · exact ⟨.connection, .dead, .free rfl rfl rfl rfl⟩
      · exact ⟨.connection, .reading cid _, .keep rfl (by simp [hpc, Pc.held])
          (by simp [Pc.refs, Server.goto, Server.setClient]) (by simp [Pc.message])⟩
    · exact ⟨.connection, .reading cid _, .keep rfl (by simp [hpc, Pc.held])
        (by simp [Pc.refs, Server.goto, Server.setClient]) (by simp [Pc.message])⟩

theorem moves_answered (answer : SocketAnswer) : ∃ t p, Moves s l (s.answered answer) t p := by
  cases answer with
  | sent => exact ⟨.connection, .lockList, .free rfl rfl rfl rfl⟩
  | wouldBlock => exact ⟨.connection, .polling, .free rfl rfl rfl rfl⟩
  | failed => exact ⟨.connection, .dead, .free rfl rfl rfl rfl⟩

theorem moves_receive (pkt : Bytes) (src : SocketAddr) (answer : SocketAnswer)
    (hpc : s.pc .connection = .receiving) : ∃ t p, Moves s l (s.receive q pkt src answer).2 t p := by
  unfold Server.receive
  split
  · exact ⟨.connection, .lockList, .free rfl rfl rfl rfl⟩
  · split
    · exact ⟨.connection, .lockList, .free rfl rfl rfl rfl⟩
    · exact moves_answered answer
    · exact moves_answered answer
    · exact moves_process pkt src hpc
    · split
      · exact moves_process pkt src hpc
      · exact ⟨.connection, .dead, .free rfl rfl rfl rfl⟩
    · exact ⟨.connection, .dead, .free rfl rfl rfl rfl⟩

/-- **A step moves one thread.** -/
theorem Step.moves (h : Step q ipcs rt s l s') : ∃ t p, Moves s l s' t p := by
  have hmem : ∀ {cid c}, s.clientList.lookup cid = some c → cid ∈ s.clientList :=
    Finmap.mem_of_lookup_eq_some
  cases h with
  | poll hpc => exact ⟨_, .lockList, .free rfl rfl rfl rfl⟩
  | lockList hpc hf =>
    split
    · exact ⟨_, .dead, .free rfl rfl rfl rfl⟩
    · exact ⟨_, .receiving, .lock rfl hf (by simp [Pc.held]) (by simp [Pc.refs])
        (by simp [Pc.message])⟩
  | wouldBlock hpc => exact ⟨_, .polling, .free rfl rfl rfl rfl⟩
  | recvFailed hpc => exact ⟨_, .dead, .free rfl rfl rfl rfl⟩
  | packet answer hpc => exact moves_receive _ _ answer hpc
  | streamEnd hpc hc hr =>
    exact ⟨_, .reading _ _, .keep rfl (by simp [hpc, Pc.held]) (by simp [hpc, Pc.refs])
      (by simp [Pc.message])⟩
  | @streamRead cid stream streams client buf fin conn hpc hc hr =>
    cases hu : fromUtf8 buf with
    | none =>
      exact ⟨_, .reading _ _, .keep rfl (by simp [hpc, Pc.held]) (by simp [hpc, Pc.refs])
        (by simp [Pc.message])⟩
    | some actions =>
      exact ⟨_, .lockSub _ _ _ _, .keep rfl (by simp [hpc, Pc.held]) (by simp [hpc, Pc.refs])
        (by simp [Pc.message])⟩
  | lockSub hpc hf =>
    split
    · exact ⟨_, .dead, .free rfl rfl rfl rfl⟩
    · exact ⟨_, .handling _ _ _ _, .lock rfl hf (by simp [hpc, Pc.held]) (by simp [hpc, Pc.refs])
        (by simp [Pc.message])⟩
  | handle hpc hc hrun =>
    exact ⟨_, .reading _ _, .keep rfl (by simp [hpc, Pc.held]) (by simp [hpc, Pc.refs])
      (by simp [Pc.message])⟩
  | sendPackage answers hpc hc hsend =>
    split
    · exact ⟨_, .lockList, .free rfl rfl rfl rfl⟩
    · exact ⟨_, .dead, .free rfl rfl rfl rfl⟩
  | wake hpc => exact ⟨_, .checkList, .free rfl rfl rfl rfl⟩
  | checkList hpc hf =>
    split
    · exact ⟨_, .sleeping, .free rfl rfl rfl rfl⟩
    · exact ⟨_, .checkSub, .lock rfl hf (by simp [Pc.held]) (by simp [Pc.refs])
        (by simp [Pc.message])⟩
  | checkSub hpc hf =>
    split
    · exact ⟨_, .sleeping, .free rfl rfl rfl rfl⟩
    · exact ⟨_, .collecting, .lock rfl hf (by simp [hpc, Pc.held]) (by simp [Pc.refs])
        (by simp [Pc.message])⟩
  | retain hpc => exact ⟨_, .sleeping, .free rfl rfl rfl rfl⟩
  | sendLock hpc hf =>
    split
    · exact ⟨_, .dead, .free rfl rfl rfl rfl⟩
    · exact ⟨_, .registering, .lock rfl hf (by simp [Pc.held]) (by simp [Pc.refs])
        (by simp [Pc.message])⟩
  | register hpc =>
    dsimp only
    split
    · exact ⟨_, .sent, .free rfl rfl rfl rfl⟩
    · exact ⟨_, .dead, .free rfl rfl rfl rfl⟩
  | @message topic data hpc hsp ht =>
    exact ⟨_, .distSub data, rfl, by simp [Pc.Holds, Pc.held], by simp [Pc.refs],
      fun d hd => Or.inr ⟨topic, by simp_all [Pc.message]⟩⟩
  | disconnect hpc hsp => exact ⟨_, .dead, .free rfl rfl rfl rfl⟩
  | distSub hpc hf =>
    split
    · exact ⟨_, .distList _, .lock rfl hf (by simp [Pc.held]) (by simp [Pc.refs])
        (by simp [hpc, Pc.message])⟩
    · exact ⟨_, .idle, .free rfl rfl rfl rfl⟩
  | @distList topic data cids rest hpc hf hl hw =>
    split
    · exact ⟨_, .dead, .free rfl rfl rfl rfl⟩
    · -- the clients left are those of the topic
      exact ⟨_, .sending _ _, .lock rfl hf (by simp [hpc, Pc.held])
        (fun cid hcid => Or.inr ⟨topic, cids, hl, hw.mem_iff.1 hcid⟩) (by simp [hpc, Pc.message])⟩
  | deliver answers hpc hc hd =>
    split
    · exact ⟨_, .sending _ _, .keep rfl (by simp [hpc, Pc.held]) (by simp +contextual [hpc, Pc.refs])
        (by simp [hpc, Pc.message])⟩
    · exact ⟨_, .dead, .free rfl rfl rfl rfl⟩
  | missing hpc hc => exact ⟨_, .dead, .free rfl rfl rfl rfl⟩
  | unlock hpc => exact ⟨_, .idle, .free rfl rfl rfl rfl⟩

/-! ## The lookup of a packet's client -/

/-- What the lookup can give, with the checks that led to it. -/
inductive Routes (q : Quiche Conn) (clients : ClientList Conn) (hdr : Header) (src : SocketAddr) :
    Routed Conn → Prop
  | notInitial : hdr.ty ≠ .initial → Routes q clients hdr src (.dropped "Packet is not Initial")
  | negotiate {out : Bytes} : ¬ q.versionIsSupported hdr.version →
      Routes q clients hdr src (.negotiate out)
  /-- Without a token, a Retry goes to the source. -/
  | retry {out : Bytes} : hdr.ty = .initial → q.versionIsSupported hdr.version → hdr.token = some [] →
      Routes q clients hdr src (.retry (mintToken hdr src) out)
  | invalidToken {token : Bytes} : hdr.token = some token → validateToken src token = none →
      Routes q clients hdr src (.dropped "Invalid address validation token")
  | invalidDcid : hdr.dcid.length ≠ maxConnIdLen →
      Routes q clients hdr src (.dropped "Invalid destination connection ID")
  | accept {token : Bytes} {odcid : ConnectionId} {conn : Conn} : hdr.dcid ∉ clients →
      hdr.ty = .initial → q.versionIsSupported hdr.version → hdr.token = some token →
      validateToken src token = some odcid → hdr.dcid.length = maxConnIdLen →
      Routes q clients hdr src (.accept token odcid hdr.dcid conn)
  | known {cid : ConnectionId} : cid ∈ clients → Routes q clients hdr src (.known cid)
  | panicked : Routes q clients hdr src .panicked

/-- **The lookup.** -/
theorem route_spec (clients : ClientList Conn) (hdr : Header) (src : SocketAddr) :
    Routes q clients hdr src (route q clients hdr src) := by
  unfold route
  dsimp only
  by_cases hnew : hdr.dcid ∉ clients ∧ q.connId hdr.dcid ∉ clients
  · rw [if_pos hnew]
    by_cases hty : hdr.ty = .initial
    · rw [if_neg (not_not.2 hty)]
      by_cases hver : q.versionIsSupported hdr.version
      · rw [if_neg (not_not.2 hver)]
        cases htok : hdr.token with
        | none => exact .panicked
        | some token =>
          dsimp only
          by_cases hemp : token.isEmpty
          · rw [if_pos hemp]
            rw [List.isEmpty_iff.1 hemp] at htok
            split
            · exact .retry hty hver htok
            · exact .panicked
          · rw [if_neg hemp]
            cases hval : validateToken src token with
            | none => exact .invalidToken htok hval
            | some odcid =>
              dsimp only
              by_cases hlen : maxConnIdLen = hdr.dcid.length
              · rw [if_neg (not_not.2 hlen)]
                split
                · exact .accept hnew.1 hty hver htok hval hlen.symm
                · exact .panicked
              · rw [if_pos hlen]
                exact .invalidDcid fun h => hlen h.symm
      · rw [if_pos hver]
        split
        · exact .negotiate hver
        · exact .panicked
    · rw [if_pos hty]
      exact .notInitial hty
  · rw [if_neg hnew]
    by_cases hd : hdr.dcid ∈ clients
    · rw [if_pos hd]
      exact .known hd
    · rw [if_neg hd]
      -- one of the two ids is known, and it is not the packet's
      refine .known (by_contra fun hc => hnew ⟨hd, hc⟩)

/-! ## Tables -/

/-- What a thread can write: the message a forwarder distributes, or an error reply. -/
def Server.Sends (s : Server Conn) (data : Bytes) : Prop :=
  (∃ t, (s.pc t).message = some data) ∨ ∃ msg ∈ subErrors, data = errorReply msg

/-- What a step does to the two tables. -/
inductive Touches (q : Quiche Conn) (ipcs : List String) (s s' : Server Conn) : Prop
  | nothing : s'.clientList = s.clientList → s'.clientSubscribe = s.clientSubscribe → Touches q ipcs s s'
  /-- A client of the list changes. -/
  | client {cid : ConnectionId} {c c' : Client Conn} :
      s.clientList.lookup cid = some c → c.Grows q s.Sends c' →
      s'.clientList = s.clientList.insert cid c' → s'.clientSubscribe = s.clientSubscribe →
      Touches q ipcs s s'
  /-- A client is accepted. -/
  | accept {cid : ConnectionId} {c' : Client Conn} :
      cid ∉ s.clientList → c'.partialResponses = ∅ → c'.writes = [] →
      s'.clientList = s.clientList.insert cid c' → s'.clientSubscribe = s.clientSubscribe →
      Touches q ipcs s s'
  /-- `handle_sub` runs. -/
  | commands {cid : ConnectionId} {c c' : Client Conn} (stream : StreamId) (actions : List String) :
      s.clientList.lookup cid = some c → c.Grows q s.Sends c' →
      s'.clientList = s.clientList.insert cid c' →
      s'.clientSubscribe = (runActions q stream cid actions (c, s.clientSubscribe)).2 →
      Touches q ipcs s s'
  /-- `server_alive_check` collects the closed clients. -/
  | retain : s.pc .aliveCheck = .collecting →
      s'.pc = Function.update s.pc .aliveCheck .sleeping →
      s'.clientList = retainClients q s.clientList →
      s'.clientSubscribe = retainSubs q s.clientList s.clientSubscribe → Touches q ipcs s s'
  /-- `server_send` inserts the topics. -/
  | register : s'.clientList = s.clientList →
      s'.clientSubscribe = registerTopics ipcs s.clientSubscribe → Touches q ipcs s s'

/-- A packet of a client without partial responses changes that client only: its connection takes
the packet. -/
theorem process_recv (cid : ConnectionId) (c : Client Conn) (pkt : Bytes) (src : SocketAddr)
    (hr : c.partialResponses = ∅) :
    (s.process q cid c pkt src).clientList =
        s.clientList.insert cid { c with conn := (q.recv c.conn pkt src).2 } ∧
      (s.process q cid c pkt src).clientSubscribe = s.clientSubscribe := by
  unfold Server.process
  split
  · next heq => rw [heq]; exact ⟨rfl, rfl⟩
  · next heq =>
    rw [heq]
    split
    · rw [handleWritable_all (by exact hr)]
      exact ⟨rfl, rfl⟩
    · exact ⟨rfl, rfl⟩

theorem process_eq (cid : ConnectionId) (c : Client Conn) (pkt : Bytes) (src : SocketAddr)
    (hr : c.partialResponses = ∅) :
    ∃ conn, (s.process q cid c pkt src).clientList = s.clientList.insert cid { c with conn } ∧
      (s.process q cid c pkt src).clientSubscribe = s.clientSubscribe :=
  ⟨_, process_recv cid c pkt src hr⟩

theorem touches_receive (pkt : Bytes) (src : SocketAddr) (answer : SocketAnswer)
    (hp : ∀ cid c, s.clientList.lookup cid = some c → c.partialResponses = ∅) :
    Touches q ipcs s (s.receive q pkt src answer).2 := by
  have hans : Touches q ipcs s (s.answered answer) := by cases answer <;> exact .nothing rfl rfl
  unfold Server.receive
  cases q.headerFromSlice pkt maxConnIdLen with
  | none => exact .nothing rfl rfl
  | some hdr =>
    have hspec := route_spec (q := q) s.clientList hdr src
    dsimp only
    generalize route q s.clientList hdr src = routed at hspec
    cases hspec with
    | notInitial _ => exact .nothing rfl rfl
    | negotiate _ => exact hans
    | retry _ _ _ => exact hans
    | invalidToken _ _ => exact .nothing rfl rfl
    | invalidDcid _ => exact .nothing rfl rfl
    | @accept token odcid conn hnew _ _ _ _ _ =>
      obtain ⟨conn', hl, hsub⟩ := process_eq (q := q) (s := s) hdr.dcid ⟨conn, ∅, []⟩ pkt src rfl
      exact .accept hnew rfl rfl hl hsub
    | @known cid hcid =>
      obtain ⟨c, hc⟩ := Finmap.mem_iff.1 hcid
      dsimp only
      rw [hc]
      obtain ⟨conn, hl, hsub⟩ := process_eq (q := q) (s := s) cid c pkt src (hp _ _ hc)
      refine .client hc ?_ hl hsub
      exact .refl rfl rfl
    | panicked => exact .nothing rfl rfl

/-- **What a step does to the tables.** -/
theorem Step.touches (hp : ∀ cid c, s.clientList.lookup cid = some c → c.partialResponses = ∅)
    (h : Step q ipcs rt s l s') : Touches q ipcs s s' := by
  cases h with
  | poll hpc => exact .nothing rfl rfl
  | lockList hpc hf => split <;> exact .nothing rfl rfl
  | wouldBlock hpc => exact .nothing rfl rfl
  | recvFailed hpc => exact .nothing rfl rfl
  | packet answer hpc => exact touches_receive _ _ answer hp
  | @streamEnd cid stream streams client error conn hpc hc hr =>
    have hg : client.Grows q s.Sends { client with conn } := .refl rfl rfl
    exact .client hc hg rfl rfl
  | @streamRead cid stream streams client buf fin conn hpc hc hr =>
    have hg : client.Grows q s.Sends { client with conn } := .refl rfl rfl
    exact .client hc hg rfl rfl
  | lockSub hpc hf => split <;> exact .nothing rfl rfl
  | @handle cid stream actions streams c c' sub hpc hc hrun =>
    have hg : c.Grows q s.Sends
        (runActions q stream cid (split ';' actions) (c, s.clientSubscribe)).1 :=
      grows_runActions (fun msg hmsg => Or.inr ⟨msg, hmsg, rfl⟩) (split ';' actions) c s.clientSubscribe
    rw [hrun] at hg
    exact .commands stream (split ';' actions) hc hg rfl (by rw [hrun])
  | sendPackage answers hpc hc hsend =>
    split <;> exact .client hc (grows_sendPackage hsend) rfl rfl
  | wake hpc => exact .nothing rfl rfl
  | checkList hpc hf => exact .nothing rfl rfl
  | checkSub hpc hf => exact .nothing rfl rfl
  | retain hpc => exact .retain hpc rfl rfl rfl
  | sendLock hpc hf => split <;> exact .nothing rfl rfl
  | register hpc =>
    dsimp only
    split <;> exact .register rfl rfl
  | message hpc hsp ht => exact .nothing rfl rfl
  | disconnect hpc hsp => exact .nothing rfl rfl
  | distSub hpc hf => exact .nothing rfl rfl
  | distList hpc hf hl hw => split <;> exact .nothing rfl rfl
  | deliver answers hpc hc hd =>
    have hg := grows_deliverTo (P := s.Sends) (Or.inl ⟨_, by rw [hpc]; rfl⟩) hd
    split <;> exact .client hc hg rfl rfl
  | missing hpc hc => exact .nothing rfl rfl
  | unlock hpc => exact .nothing rfl rfl

end CryptoMarket.Publisher
