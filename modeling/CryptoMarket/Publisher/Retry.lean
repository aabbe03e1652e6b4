import CryptoMarket.Publisher.Tables

/-!
# Publisher server: address validation

A Retry token is `quiche`, the octets of the address and the connection id of the packet,
in the clear. `validate_token` compares the first two parts; there is no key, and the server
keeps no record of the tokens it sends.

* `accepted_token`: in every run, a packet that makes a connection carries the token that
  `mint_token` gives for its source, and no Retry of the run brought this token to another
  ip of the same family.
* `accepted_unsent`: the source can make the token itself, without any Retry.
-/

namespace CryptoMarket.Publisher

variable {Conn : Type} {q : Quiche Conn} {ipcs : List String} {rt : Bool} {s : Server Conn}
  {ls : List Label} {pkt pkt' token : Bytes} {src src' : SocketAddr} {odcid scid : ConnectionId}
  {ev : PacketEvent} {answer : SocketAnswer} {hdr : Header}

/-- **A minted token is valid** for its address and gives back the connection id. -/
theorem validateToken_mintToken (hdr : Header) (src : SocketAddr) :
    validateToken src (mintToken hdr src) = some hdr.dcid :=
  validateToken_eq_some.2 rfl

/-- A token that is valid for two addresses of one family is of one ip. -/
theorem ip_eq_of_validateToken {odcid' : ConnectionId} (hf : src.ip.SameFamily src'.ip)
    (h : validateToken src token = some odcid) (h' : validateToken src' token = some odcid') :
    src.ip = src'.ip := by
  have ht := validateToken_eq_some.1 h
  have ht' := validateToken_eq_some.1 h'
  exact ip_eq_of_token hf (ht.symm.trans ht')

/-! ## What a packet leads to -/

/-- What follows from the lookup. -/
def Routed.event : Routed Conn → PacketEvent
  | .dropped error => .dropped error
  | .negotiate _ => .negotiated
  | .retry token _ => .retried token
  | .accept token odcid scid _ => .accepted token odcid scid
  | .known cid => .known cid
  | .panicked => .panicked

/-- **The lookup decides**: the client it names is in the list. -/
theorem receive_event (hh : q.headerFromSlice pkt maxConnIdLen = some hdr) :
    (s.receive q pkt src answer).1 = (route q s.clientList hdr src).event := by
  have hspec := route_spec (q := q) s.clientList hdr src
  unfold Server.receive
  rw [hh]
  dsimp only
  generalize route q s.clientList hdr src = routed at hspec
  cases hspec with
  | known hcid =>
    obtain ⟨c, hc⟩ := Finmap.mem_iff.1 hcid
    dsimp only
    rw [hc]
    rfl
  | _ => rfl

/-- **What is behind an event**: a header that can be read, and the lookup. -/
theorem routes_of_event (h : (s.receive q pkt src answer).1 = ev)
    (hne : ∀ error, ev ≠ .dropped error) :
    ∃ hdr routed, q.headerFromSlice pkt maxConnIdLen = some hdr ∧
      Routes q s.clientList hdr src routed ∧ routed.event = ev := by
  cases hh : q.headerFromSlice pkt maxConnIdLen with
  | none =>
    unfold Server.receive at h
    rw [hh] at h
    exact absurd h.symm (hne _)
  | some hdr =>
    have hev : (route q s.clientList hdr src).event = ev := (receive_event hh).symm.trans h
    exact ⟨hdr, _, rfl, route_spec s.clientList hdr src, hev⟩

/-- **What is accepted**: an Initial with a valid token and a long enough id. -/
theorem receive_accepted (h : (s.receive q pkt src answer).1 = .accepted token odcid scid) :
    ∃ hdr, q.headerFromSlice pkt maxConnIdLen = some hdr ∧ hdr.ty = .initial ∧
      q.versionIsSupported hdr.version ∧ hdr.token = some token ∧ hdr.dcid = scid ∧
      scid.length = maxConnIdLen ∧ validateToken src token = some odcid := by
  obtain ⟨hdr, routed, hh, hroutes, hev⟩ := routes_of_event h (by simp)
  cases hroutes with
  | accept _ hty hver htok hval hlen =>
    cases hev
    exact ⟨hdr, hh, hty, hver, htok, rfl, hlen, hval⟩
  | _ => cases hev

/-- What a Retry brings to the source of a packet. -/
theorem receive_retried (h : (s.receive q pkt src answer).1 = .retried token) :
    ∃ hdr, q.headerFromSlice pkt maxConnIdLen = some hdr ∧ token = mintToken hdr src := by
  obtain ⟨hdr, routed, hh, hroutes, hev⟩ := routes_of_event h (by simp)
  cases hroutes with
  | retry _ _ _ =>
    cases hev
    exact ⟨hdr, hh, rfl⟩
  | _ => cases hev

/-- **Every packet of a run** is received in some state. -/
theorem packet_of_run (h : Runs q ipcs rt ls s) (hm : Label.packet pkt src ev ∈ ls) :
    ∃ (s₁ : Server Conn) (answer : SocketAnswer), (s₁.receive q pkt src answer).1 = ev := by
  induction h with
  | nil => simp at hm
  | @snoc ls s₁ t l hr hst ih =>
    rcases List.mem_append.1 hm with hm | hm
    · exact ih hm
    · obtain rfl := (List.mem_singleton.1 hm).symm
      -- only one step has such a label
      generalize hl : Label.packet pkt src ev = l at hst
      cases hst with
      | packet answer hpc =>
        cases hl
        exact ⟨s₁, answer, rfl⟩
      | _ => cases hl

/-- **Address validation**: in every run, the packet for which a connection is accepted is an
Initial of a supported version whose token is the one that `mint_token` gives for the source,
and a Retry with this token that went to an ip of the same family went to this ip. -/
theorem accepted_token (h : Runs q ipcs rt ls s)
    (hm : Label.packet pkt src (.accepted token odcid scid) ∈ ls) :
    (∃ hdr, q.headerFromSlice pkt maxConnIdLen = some hdr ∧ hdr.ty = .initial ∧
      q.versionIsSupported hdr.version ∧ hdr.token = some token ∧ hdr.dcid = scid ∧
      scid.length = maxConnIdLen ∧ token = mintToken { hdr with dcid := odcid } src) ∧
    ∀ pkt' src', Label.packet pkt' src' (.retried token) ∈ ls → src.ip.SameFamily src'.ip →
      src'.ip = src.ip := by
  obtain ⟨s₁, answer, hacc⟩ := packet_of_run h hm
  obtain ⟨hdr, hh, hty, hver, htok, hscid, hlen, hval⟩ := receive_accepted hacc
  refine ⟨⟨hdr, hh, hty, hver, htok, hscid, hlen, validateToken_eq_some.1 hval⟩, ?_⟩
  intro pkt' src' hm' hf
  obtain ⟨s₂, answer', hret⟩ := packet_of_run h hm'
  obtain ⟨hdr', -, htok'⟩ := receive_retried hret
  have hval' : validateToken src' token = some hdr'.dcid := by
    rw [htok']; exact validateToken_mintToken hdr' src'
  exact (ip_eq_of_validateToken hf hval hval').symm

/-- The first packet of the sample run is accepted. -/
theorem accepted_token_sample : ∃ s, Runs (sampleQuiche List.length) ["btc"] true sampleSteps s ∧
    (∃ hdr, (sampleQuiche List.length).headerFromSlice sampleToken maxConnIdLen = some hdr ∧
      hdr.ty = .initial ∧ (sampleQuiche List.length).versionIsSupported hdr.version ∧
      hdr.token = some sampleToken ∧ hdr.dcid = sampleCid ∧ sampleCid.length = maxConnIdLen ∧
      sampleToken = mintToken { hdr with dcid := sampleCid } sampleAddr) ∧
    ∀ pkt' src', Label.packet pkt' src' (.retried sampleToken) ∈ sampleSteps →
      sampleAddr.ip.SameFamily src'.ip → src'.ip = sampleAddr.ip := by
  obtain ⟨s, hrun, -⟩ := at_lockSub List.length "btc" "sub@btc"
  exact ⟨s, hrun, accepted_token hrun (by simp [topicSteps])⟩

/-- **A connection without a Retry**: the token is made up by its sender. -/
theorem accepted_unsent : ∃ ls s, Runs (sampleQuiche List.length) ["btc"] true ls s ∧
    Label.packet sampleToken sampleAddr (.accepted sampleToken sampleCid sampleCid) ∈ ls ∧
    ∀ pkt src token, Label.packet pkt src (.retried token) ∉ ls := by
  obtain ⟨s, hrun, -⟩ := at_lockSub List.length "btc" "sub@btc"
  refine ⟨_, s, hrun, by simp [topicSteps], fun pkt src token hm => ?_⟩
  simp [topicSteps] at hm

end CryptoMarket.Publisher
