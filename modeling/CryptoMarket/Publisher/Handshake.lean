import CryptoMarket.Publisher.Frames
import CryptoMarket.Publisher.Retry

/-!
# Publisher server: the stateless handshake

The server answers the first Initial of a connection id `d` with a Retry that tells the
client to come back under the keyed hash of `d`, and keeps nothing. The entry that the
second Initial makes has this hash as its key, and both ids are looked up.

* `handshake`: the first Initial brings a Retry, the second one makes one entry, and until
  this entry is collected the packets under both ids belong to it.
-/

namespace CryptoMarket.Publisher

variable {Conn : Type} {q : Quiche Conn} {ipcs : List String} {rt : Bool} {s s' : Server Conn}
  {clients : ClientList Conn} {pkt token : Bytes} {src : SocketAddr} {d cid odcid : ConnectionId}
  {ev : PacketEvent} {hdr : Header}

/-- What the server takes from the library without a check: a Retry can be written, a
connection can be accepted, and a signature has the bytes of a connection id. -/
structure Quiche.Works (q : Quiche Conn) : Prop where
  retry : ∀ scid dcid newScid token version, (q.retry scid dcid newScid token version).isSome
  accept : ∀ scid odcid src, (q.accept scid odcid src).isSome
  hmacSign : ∀ x, maxConnIdLen ≤ (q.hmacSign x).length

/-- An Initial packet of a supported version. -/
structure IsInitial (q : Quiche Conn) (pkt : Bytes) (hdr : Header) (dcid : ConnectionId)
    (token : Bytes) : Prop where
  parses : q.headerFromSlice pkt maxConnIdLen = some hdr
  ty : hdr.ty = .initial
  version : q.versionIsSupported hdr.version = true
  dcid : hdr.dcid = dcid
  token : hdr.token = some token

/-- The ids that the server gives are of full length. -/
theorem Quiche.Works.length_connId (hq : q.Works) (d : ConnectionId) :
    (q.connId d).length = maxConnIdLen := by
  unfold Quiche.connId
  rw [List.length_take]
  exact Nat.min_eq_left (hq.hmacSign d)

/-! ## The lookup -/

/-- **The first Initial**: a Retry with the keyed hash as the server's id. -/
theorem route_initial (hq : q.Works) (hi : IsInitial q pkt hdr d []) (src : SocketAddr)
    (hd : d ∉ clients) (hh : q.connId d ∉ clients) : ∃ out,
      q.retry hdr.scid d (q.connId d) (mintToken hdr src) hdr.version = some out ∧
        route q clients hdr src = .retry (mintToken hdr src) out := by
  obtain ⟨out, hout⟩ :=
    Option.isSome_iff_exists.1 (hq.retry hdr.scid d (q.connId d) (mintToken hdr src) hdr.version)
  refine ⟨out, hout, ?_⟩
  unfold route
  simp only [hi.dcid, hi.ty, hi.version, hi.token, hout]
  simp [hd, hh]

/-- **The second Initial**: its token is valid and a connection is made under its id. -/
theorem route_token (hq : q.Works) (hi : IsInitial q pkt hdr (q.connId d) token)
    (hv : validateToken src token = some odcid) (hh : q.connId d ∉ clients)
    (hhh : q.connId (q.connId d) ∉ clients) :
    ∃ conn, q.accept (q.connId d) odcid src = some conn ∧
      route q clients hdr src = .accept token odcid (q.connId d) conn := by
  obtain ⟨conn, hconn⟩ := Option.isSome_iff_exists.1 (hq.accept (q.connId d) odcid src)
  have hne : token.isEmpty = false := by
    -- a valid token starts with the static bytes
    have hlen := congrArg List.length (validateToken_eq_some.1 hv)
    simp only [List.length_append, tokenPrefix_length] at hlen
    rw [List.isEmpty_eq_false_iff]
    rintro rfl
    rw [List.length_nil] at hlen
    omega
  refine ⟨conn, hconn, ?_⟩
  unfold route
  simp only [hi.dcid, hi.ty, hi.version, hi.token, hv, hconn]
  simp [hh, hhh, hne, hq.length_connId]

/-- **A known id**: the destination id itself, else its keyed hash. -/
theorem route_known (hcid : cid ∈ clients)
    (h : hdr.dcid = cid ∨ q.connId hdr.dcid = cid ∧ hdr.dcid ∉ clients) :
    route q clients hdr src = .known cid := by
  unfold route
  rcases h with h | ⟨h, hn⟩
  · simp [h, hcid]
  · simp [h, hn, hcid]

/-! ## The client list -/

theorem receive_retry {out : Bytes} (answer : SocketAnswer)
    (hp : q.headerFromSlice pkt maxConnIdLen = some hdr)
    (hr : route q s.clientList hdr src = .retry token out) :
    (s.receive q pkt src answer).1 = .retried token ∧
      (s.receive q pkt src answer).2.clientList = s.clientList := by
  unfold Server.receive
  rw [hp]
  dsimp only
  rw [hr]
  exact ⟨rfl, by cases answer <;> rfl⟩

theorem receive_accept {conn : Conn} (answer : SocketAnswer)
    (hp : q.headerFromSlice pkt maxConnIdLen = some hdr)
    (hr : route q s.clientList hdr src = .accept token odcid cid conn) :
    (s.receive q pkt src answer).1 = .accepted token odcid cid ∧
      (s.receive q pkt src answer).2.clientList =
        s.clientList.insert cid ⟨(q.recv conn pkt src).2, ∅, []⟩ := by
  unfold Server.receive
  rw [hp]
  dsimp only
  rw [hr]
  exact ⟨rfl, (process_recv cid ⟨conn, ∅, []⟩ pkt src rfl).1⟩

theorem receive_known (answer : SocketAnswer) (hp : q.headerFromSlice pkt maxConnIdLen = some hdr)
    (hr : route q s.clientList hdr src = .known cid) (hcid : cid ∈ s.clientList) :
    (s.receive q pkt src answer).1 = .known cid ∧ ∃ c, s.clientList.lookup cid = some c ∧
      (s.receive q pkt src answer).2 = s.process q cid c pkt src := by
  obtain ⟨c, hc⟩ := Finmap.mem_iff.1 hcid
  unfold Server.receive
  rw [hp]
  dsimp only
  rw [hr]
  dsimp only
  rw [hc]
  exact ⟨rfl, c, rfl, rfl⟩

/-- **An entry stays** until the alive check collects it. -/
theorem mem_of_keeps {ls : List Label} (h : Run (Guarded (Step q ipcs rt) (Keeps q cid)) s ls s')
    (hcid : cid ∈ s.clientList) : cid ∈ s'.clientList :=
  Run.inv (P := fun s => cid ∈ s.clientList) hcid
    (fun _ _ _ hin hst => hst.1.mem_clientList.2 (Or.inl ⟨hin, hst.2⟩)) h

/-- **The handshake**, with any steps in between: in a state without `d` and its keyed hash,
an Initial of `d` without a token adds nothing and brings a Retry with the hash as the id;
an Initial under the hash with the token of the Retry, from the same ip, adds one client
under the hash, with the connection that is accepted for `d`; and until the alive check collects
this client each packet under the hash, and each under `d` while `d` is not a key, is given to the
connection of this client and changes this client only. -/
theorem handshake (hq : q.Works) {s₁ s₁' : Server Conn} {pkt₁ : Bytes} {hdr₁ : Header}
    {src₁ : SocketAddr} {ev₁ : PacketEvent} (hi₁ : IsInitial q pkt₁ hdr₁ d []) (hd : d ∉ s₁.clientList)
    (hh : q.connId d ∉ s₁.clientList) (hst₁ : Step q ipcs rt s₁ (.packet pkt₁ src₁ ev₁) s₁') :
    ∃ t out, ev₁ = .retried t ∧ route q s₁.clientList hdr₁ src₁ = .retry t out ∧
      q.retry hdr₁.scid d (q.connId d) t hdr₁.version = some out ∧ s₁'.clientList = s₁.clientList ∧
      ∀ ls₂ s₂ s₂' pkt₂ hdr₂ src₂ ev₂, Run (Step q ipcs rt) s₁' ls₂ s₂ →
        IsInitial q pkt₂ hdr₂ (q.connId d) t → src₂.ip = src₁.ip →
        q.connId d ∉ s₂.clientList → q.connId (q.connId d) ∉ s₂.clientList →
        Step q ipcs rt s₂ (.packet pkt₂ src₂ ev₂) s₂' →
        ev₂ = .accepted t d (q.connId d) ∧
        (∃ conn, q.accept (q.connId d) d src₂ = some conn ∧
          s₂'.clientList = s₂.clientList.insert (q.connId d) ⟨(q.recv conn pkt₂ src₂).2, ∅, []⟩) ∧
        ∀ ls₃ s₃ s₃' pkt₃ hdr₃ src₃ ev₃,
          Run (Guarded (Step q ipcs rt) (Keeps q (q.connId d))) s₂' ls₃ s₃ →
          q.headerFromSlice pkt₃ maxConnIdLen = some hdr₃ →
          hdr₃.dcid = q.connId d ∨ hdr₃.dcid = d ∧ d ∉ s₃.clientList →
          Step q ipcs rt s₃ (.packet pkt₃ src₃ ev₃) s₃' →
          ev₃ = .known (q.connId d) ∧ ∃ c, s₃.clientList.lookup (q.connId d) = some c ∧
            s₃' = s₃.process q (q.connId d) c pkt₃ src₃ ∧
            (∃ c', s₃'.clientList = s₃.clientList.insert (q.connId d) c') ∧
            (c.partialResponses = ∅ → s₃'.clientList =
              s₃.clientList.insert (q.connId d) { c with conn := (q.recv c.conn pkt₃ src₃).2 }) := by
  obtain ⟨out, hout, hroute₁⟩ := route_initial hq hi₁ src₁ hd hh
  obtain ⟨answer₁, rfl, rfl⟩ := hst₁.packet_inv
  obtain ⟨hev₁, hl₁⟩ := receive_retry answer₁ hi₁.parses hroute₁
  refine ⟨mintToken hdr₁ src₁, out, hev₁, hroute₁, hout, hl₁, ?_⟩
  intro ls₂ s₂ s₂' pkt₂ hdr₂ src₂ ev₂ _ hi₂ hip hn₂ hn₂' hst₂
  -- only the ip of the source is in the token
  have hvalid : validateToken src₂ (mintToken hdr₁ src₁) = some d := by
    have hmint : mintToken hdr₁ src₁ = mintToken hdr₁ src₂ := by unfold mintToken; rw [hip]
    rw [hmint, ← hi₁.dcid]
    exact validateToken_mintToken hdr₁ src₂
  obtain ⟨conn, hconn, hroute₂⟩ := route_token hq hi₂ hvalid hn₂ hn₂'
  obtain ⟨answer₂, rfl, rfl⟩ := hst₂.packet_inv
  obtain ⟨hev₂, hl₂⟩ := receive_accept answer₂ hi₂.parses hroute₂
  refine ⟨hev₂, ⟨conn, hconn, hl₂⟩, ?_⟩
  intro ls₃ s₃ s₃' pkt₃ hdr₃ src₃ ev₃ hrun hp hdcid hst₃
  have hin : q.connId d ∈ s₃.clientList := by
    refine mem_of_keeps hrun ?_
    rw [hl₂]
    exact Finmap.mem_insert.2 (Or.inl rfl)
  have hroute₃ : route q s₃.clientList hdr₃ src₃ = .known (q.connId d) := by
    refine route_known hin (hdcid.imp_right ?_)
    rintro ⟨rfl, hn⟩
    exact ⟨rfl, hn⟩
  obtain ⟨answer₃, rfl, rfl⟩ := hst₃.packet_inv
  obtain ⟨hev₃, c, hc, hs₃⟩ := receive_known answer₃ hp hroute₃ hin
  refine ⟨hev₃, c, hc, hs₃, ?_, fun hr => ?_⟩
  · rw [hs₃]
    exact clientList_process ..
  · rw [hs₃]
    exact (process_recv _ c pkt₃ src₃ hr).1

/-! ## A run with a late retransmission -/

/-- The sample transport with another reading of packets: the destination id, then the token. -/
def handshakeQuiche : Quiche (List Bytes) :=
  { sampleQuiche List.length with
    headerFromSlice := fun pkt _ => some ⟨.initial, 1, pkt.take 20, [], some (pkt.drop 20)⟩
    readable := fun _ => []
    hmacSign := fun x => x.map (· + 1) ++ List.replicate 32 0 }

theorem works_handshakeQuiche : handshakeQuiche.Works := by
  refine ⟨fun _ _ _ _ _ => rfl, fun _ _ _ => rfl, fun x => ?_⟩
  simp [handshakeQuiche, maxConnIdLen]

/-- The mutexes are free if the threads other than `server_connection` have not moved. -/
theorem free_of_start {m : Lock} (h : ∀ t, t ≠ .connection → s.pc t = (Server.init Conn).pc t)
    (hm : ¬ (s.pc .connection).Holds m) : s.Free m := by
  intro t
  by_cases ht : t = .connection
  · rw [ht]; exact hm
  · rw [h t ht]
    cases t <;> simp [Server.init, Pc.Holds, Pc.held]

/-- The server waits for its first packet. -/
def handshakeStart : Server (List Bytes) :=
  ((Server.init (List Bytes)).goto .connection .lockList).goto .connection .receiving

/-- The first Initial of the id, the second one from another port, and the first one again. -/
theorem handshake_sample : ∃ (s₁ s₁' s₂ s₂' s₃ s₃' : Server (List Bytes)) (ev : PacketEvent)
    (c : Client (List Bytes)),
    let h := handshakeQuiche.connId sampleCid
    let src := { sampleAddr with port := 4434 }
    Runs handshakeQuiche [] true [.poll, .lockList] s₁ ∧
    Step handshakeQuiche [] true s₁ (.packet sampleCid sampleAddr (.retried sampleToken)) s₁' ∧
    s₁'.clientList = s₁.clientList ∧ Run (Step handshakeQuiche [] true) s₁' [.lockList] s₂ ∧
    Step handshakeQuiche [] true s₂
      (.packet (h ++ sampleToken) src (.accepted sampleToken sampleCid h)) s₂' ∧
    s₂'.clientList = s₂.clientList.insert h c ∧
    Run (Guarded (Step handshakeQuiche [] true) (Keeps handshakeQuiche h)) s₂' [.sendPackage, .lockList]
      s₃ ∧
    Step handshakeQuiche [] true s₃ (.packet sampleCid sampleAddr ev) s₃' ∧ ev = .known h := by
  let q := handshakeQuiche
  let h := q.connId sampleCid
  let src : SocketAddr := { sampleAddr with port := 4434 }
  let s₁ := handshakeStart
  let s₁' := (s₁.receive q sampleCid sampleAddr .sent).2
  let s₂ := s₁'.goto .connection .receiving
  let s₂' := (s₂.receive q (h ++ sampleToken) src .sent).2
  let c₂ : Client (List Bytes) := ⟨[utf8 "sub@btc"], ∅, []⟩
  let s₃ := ((s₂'.setClient h c₂).goto .connection .lockList).goto .connection .receiving
  have hother : ∀ {s : Server (List Bytes)}, (∀ t, t ≠ .connection → s.pc t = s₁.pc t) →
      s.pc .connection = .lockList → s.Free .clientList := by
    intro s hs hc
    refine free_of_start (fun t ht => (hs t ht).trans ?_) (by rw [hc]; decide)
    cases t with
    | connection => exact absurd rfl ht
    | _ => rfl
  have hrun : Runs q [] true [.poll, .lockList] s₁ :=
    (Run.single (Step.poll rfl)).snoc (Step.lockList rfl (hother (by rintro (_ | _) ht <;> trivial) rfl))
  have h₁ : Step q [] true s₁ (.packet sampleCid sampleAddr (.retried sampleToken)) s₁' :=
    Step.packet .sent rfl
  have hlock₁ : Step q [] true s₁' .lockList s₂ :=
    Step.lockList rfl (hother (fun t ht => h₁.pc_of_ne ht) rfl)
  have h₂ : Step q [] true s₂
      (.packet (h ++ sampleToken) src (.accepted sampleToken sampleCid h)) s₂' := Step.packet .sent rfl
  have h₃ : Step q [] true s₃ (.packet sampleCid sampleAddr (.known h)) _ := Step.packet .sent rfl
  have hsend : Step q [] true s₂' .sendPackage
      (if true then (s₂'.setClient h c₂).goto .connection .lockList
        else (s₂'.setClient h c₂).panic .connection) := Step.sendPackage [] rfl rfl rfl
  have hlock₂ : Step q [] true ((s₂'.setClient h c₂).goto .connection .lockList) .lockList s₃ := by
    refine Step.lockList rfl (hother (fun t ht => ?_) rfl)
    refine (hsend.pc_of_ne ht).trans ?_
    rw [h₂.pc_of_ne ht, hlock₁.pc_of_ne ht, h₁.pc_of_ne ht]
  obtain ⟨t, out, hev, -, -, hl, hlater⟩ := handshake works_handshakeQuiche
    ⟨rfl, rfl, rfl, rfl, rfl⟩ (by decide) (by decide) h₁
  obtain rfl := PacketEvent.retried.inj hev
  obtain ⟨-, ⟨conn, -, hc⟩, hknown⟩ := hlater [.lockList] s₂ s₂' (h ++ sampleToken) _ src _
    (Run.single hlock₁) ⟨rfl, rfl, rfl, by decide, by decide⟩ rfl (by decide) (by decide) h₂
  have hrun₂ : Run (Guarded (Step q [] true) (Keeps q h)) s₂' [.sendPackage, .lockList] s₃ :=
    (Run.single ⟨hsend, fun h => by cases h⟩).snoc ⟨hlock₂, fun h => by cases h⟩
  obtain ⟨hev₃, -⟩ := hknown [.sendPackage, .lockList] s₃ _ sampleCid _ sampleAddr _ hrun₂ rfl
    (Or.inr ⟨rfl, by decide⟩) h₃
  exact ⟨s₁, s₁', s₂, s₂', s₃, _, _, _, hrun, h₁, hl, Run.single hlock₁, h₂, hc, hrun₂, h₃, hev₃⟩

end CryptoMarket.Publisher
