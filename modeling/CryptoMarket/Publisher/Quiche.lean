import CryptoMarket.Lib.Text

/-!
# Publisher server: addresses, headers and the QUIC library

What the publisher uses of `std::net`, of `quiche` and of `ring`. The transport is not in
the repository and stays a parameter (`Quiche`): a connection is a value of some type and
each call gives the connection afterwards.
-/

namespace CryptoMarket.Publisher

/-- `quiche::ConnectionId`: its bytes. -/
abbrev ConnectionId := Bytes

/-- A stream of a connection. -/
abbrev StreamId := ℕ

/-- `std::net::IpAddr` -/
inductive IpAddr where
  | v4 (octets : Vector UInt8 4)
  | v6 (octets : Vector UInt8 16)
  deriving DecidableEq

/-- `std::net::SocketAddr` -/
structure SocketAddr where
  ip : IpAddr
  port : UInt16
  deriving DecidableEq

/-- `quiche::Type` -/
inductive PacketType where
  | initial
  | retry
  | handshake
  | zeroRtt
  | versionNegotiation
  | short
  deriving DecidableEq, Repr

/-- `quiche::Header`: the fields the server reads. -/
structure Header where
  ty : PacketType
  version : ℕ
  dcid : ConnectionId
  scid : ConnectionId
  token : Option Bytes
  deriving DecidableEq

/-- `quiche::MAX_CONN_ID_LEN` -/
def maxConnIdLen : ℕ := 20

/-- `quiche::Error`, as far as the server tells the errors apart. -/
inductive Error where
  | done
  | other (name : String)
  deriving DecidableEq, Repr

/-- What the server calls in `quiche`, on connections of type `Conn`, and
`ring::hmac::sign` under the key of the run. -/
structure Quiche (Conn : Type) where
  /-- `Header::from_slice(packet, dcid_len)` -/
  headerFromSlice : Bytes → ℕ → Option Header
  versionIsSupported : ℕ → Bool
  /-- `negotiate_version(scid, dcid)`: the datagram. -/
  negotiateVersion : ConnectionId → ConnectionId → Option Bytes
  /-- `retry(scid, dcid, new_scid, token, version)`: the datagram. -/
  retry : ConnectionId → ConnectionId → ConnectionId → Bytes → ℕ → Option Bytes
  /-- `accept(scid, odcid, from)` -/
  accept : ConnectionId → ConnectionId → SocketAddr → Option Conn
  recv : Conn → Bytes → SocketAddr → Except Error ℕ × Conn
  isInEarlyData : Conn → Bool
  isEstablished : Conn → Bool
  isClosed : Conn → Bool
  writable : Conn → List StreamId
  readable : Conn → List StreamId
  /-- `stream_recv`: the bytes and whether the stream ends with them. -/
  streamRecv : Conn → StreamId → Except Error (Bytes × Bool) × Conn
  /-- `stream_send(stream, data, fin)`: how many bytes are accepted. -/
  streamSend : Conn → StreamId → Bytes → Bool → Except Error ℕ × Conn
  /-- `send`: the next datagram and where to. -/
  send : Conn → Except Error (Bytes × SocketAddr) × Conn
  /-- `close(app, err, reason)`; the server ignores the result. -/
  close : Conn → Bool → ℕ → Bytes → Conn
  hmacSign : Bytes → Bytes

/-- `conn_id`: the first bytes of the keyed hash of a connection id. -/
def Quiche.connId {Conn : Type} (q : Quiche Conn) (dcid : ConnectionId) : ConnectionId :=
  (q.hmacSign dcid).take maxConnIdLen

/-! ## Retry tokens -/

/-- The octets of an address. -/
def IpAddr.octets : IpAddr → Bytes
  | .v4 octets => octets.toList
  | .v6 octets => octets.toList

/-- The static bytes every token starts with. -/
def tokenPrefix : Bytes := utf8 "quiche"

/-- `mint_token` -/
def mintToken (hdr : Header) (src : SocketAddr) : Bytes := tokenPrefix ++ src.ip.octets ++ hdr.dcid

/-- `validate_token` -/
def validateToken (src : SocketAddr) (token : Bytes) : Option ConnectionId :=
  if token.length < 6 then none
  else if token.take 6 ≠ tokenPrefix then none
  else
    let token := token.drop 6
    let addr := src.ip.octets
    if token.length < addr.length ∨ token.take addr.length ≠ addr then none
    else some (token.drop addr.length)

theorem tokenPrefix_length : tokenPrefix.length = 6 := by decide

/-- **A valid token** is the prefix, the octets of the address and the id it gives. -/
theorem validateToken_eq_some {src : SocketAddr} {token : Bytes} {odcid : ConnectionId} :
    validateToken src token = some odcid ↔ token = tokenPrefix ++ src.ip.octets ++ odcid := by
  unfold validateToken
  constructor
  · intro h
    split at h
    · cases h
    · split at h
      · cases h
      · rename_i hp
        simp only [ne_eq, not_not] at hp
        simp only at h
        split at h
        · cases h
        · rename_i ha
          simp only [not_or, ne_eq, not_not] at ha
          have h1 := List.take_append_drop 6 token
          have h2 := List.take_append_drop src.ip.octets.length (token.drop 6)
          rw [hp] at h1
          rw [ha.2, Option.some.inj h] at h2
          rw [← h1, ← h2, List.append_assoc]
  · rintro rfl
    have hlen := tokenPrefix_length
    have hdrop : (tokenPrefix ++ src.ip.octets ++ odcid).drop 6 = src.ip.octets ++ odcid := by
      rw [List.append_assoc, ← hlen, List.drop_left]
    have htake : (tokenPrefix ++ src.ip.octets ++ odcid).take 6 = tokenPrefix := by
      rw [List.append_assoc, ← hlen, List.take_left]
    have haddr : (src.ip.octets ++ odcid).take src.ip.octets.length = src.ip.octets := List.take_left
    rw [if_neg (by simp only [List.length_append]; omega), htake, if_neg (not_not.2 rfl)]
    simp only [hdrop, haddr]
    rw [if_neg (by simp), List.drop_left]

/-- Addresses of one family. -/
def IpAddr.SameFamily : IpAddr → IpAddr → Prop
  | .v4 _, .v4 _ => True
  | .v6 _, .v6 _ => True
  | _, _ => False

/-- A token tells the address it was minted for among those of its family. -/
theorem ip_eq_of_token {ip ip' : IpAddr} {odcid odcid' : ConnectionId} (hf : ip.SameFamily ip')
    (h : tokenPrefix ++ ip.octets ++ odcid = tokenPrefix ++ ip'.octets ++ odcid') : ip = ip' := by
  simp only [List.append_assoc, List.append_cancel_left_eq] at h
  cases ip with
  | v4 o =>
    cases ip' with
    | v4 o' =>
      have := (List.append_inj h (by simp [IpAddr.octets])).1
      rw [Vector.toList_inj.1 this]
    | v6 o' => exact hf.elim
  | v6 o =>
    cases ip' with
    | v4 o' => exact hf.elim
    | v6 o' =>
      have := (List.append_inj h (by simp [IpAddr.octets])).1
      rw [Vector.toList_inj.1 this]

end CryptoMarket.Publisher
