import CryptoMarket.Publisher.Retry

/-!
# Publisher server: what a token tells

A token has no mark between its parts: after `quiche` come the 4 or 16 octets of an address
and then the connection id, which the client chooses.

* `validateToken_iff_minted`: for one address `validate_token` undoes `mint_token` and accepts
  nothing else, and each of its slices is in range.
* `validateToken_isSome_iff`: a token of another address is valid exactly if the octets
  asked for begin the octets and the id in it; between addresses of one family that is the
  same address.
-/

namespace CryptoMarket.Publisher

variable {src : SocketAddr} {token : Bytes}

/-! ## The slices -/

/-- `&b[..n]`: none where it panics. -/
def sliceTo (b : Bytes) (n : ℕ) : Option Bytes := if n ≤ b.length then some (b.take n) else none

/-- `&b[n..]` -/
def sliceFrom (b : Bytes) (n : ℕ) : Option Bytes := if n ≤ b.length then some (b.drop n) else none

/-- `validate_token` with its slices: none if one is out of range. -/
def validateTokenSlices (src : SocketAddr) (token : Bytes) : Option (Option ConnectionId) :=
  if token.length < 6 then some none
  else (sliceTo token 6).bind fun start =>
    if start ≠ tokenPrefix then some none
    else (sliceFrom token 6).bind fun token =>
      let addr := src.ip.octets
      if token.length < addr.length then some none
      else (sliceTo token addr.length).bind fun start =>
        if start ≠ addr then some none
        else (sliceFrom token addr.length).map some

theorem sliceTo_eq {b : Bytes} {n : ℕ} (h : ¬ b.length < n) : sliceTo b n = some (b.take n) :=
  if_pos (Nat.not_lt.1 h)

theorem sliceFrom_eq {b : Bytes} {n : ℕ} (h : ¬ b.length < n) : sliceFrom b n = some (b.drop n) :=
  if_pos (Nat.not_lt.1 h)

/-- **No slice is out of range.** -/
theorem validateTokenSlices_eq (src : SocketAddr) (token : Bytes) :
    validateTokenSlices src token = some (validateToken src token) := by
  unfold validateTokenSlices validateToken
  by_cases hlen : token.length < 6
  · rw [if_pos hlen, if_pos hlen]
  · rw [if_neg hlen, if_neg hlen, sliceTo_eq hlen, sliceFrom_eq hlen]
    simp only [Option.bind_some]
    by_cases hstart : token.take 6 = tokenPrefix
    · simp only [hstart, ne_eq, not_true_eq_false, if_false]
      by_cases haddr : (token.drop 6).length < src.ip.octets.length
      · rw [if_pos haddr, if_pos (Or.inl haddr)]
      · rw [if_neg haddr, sliceTo_eq haddr, sliceFrom_eq haddr]
        simp only [haddr, false_or, Option.bind_some, Option.map_some]
        split <;> rfl
    · simp only [hstart, ne_eq, not_false_eq_true, if_true]

/-- **Minting and validating are inverse** for one address: the id comes out exactly if the
token is the one minted for it, every other token is rejected, and no slice is out of
range. -/
theorem validateToken_iff_minted (src : SocketAddr) (token : Bytes) :
    (∀ d, validateTokenSlices src token = some (some d) ↔
      ∃ hdr : Header, hdr.dcid = d ∧ token = mintToken hdr src) ∧
    (validateTokenSlices src token = some none ↔ ¬ ∃ hdr : Header, token = mintToken hdr src) := by
  rw [validateTokenSlices_eq]
  have hiff : ∀ d, validateToken src token = some d ↔
      ∃ hdr : Header, hdr.dcid = d ∧ token = mintToken hdr src := by
    intro d
    rw [validateToken_eq_some]
    constructor
    · intro htoken
      exact ⟨⟨.initial, 1, d, [], none⟩, rfl, htoken⟩
    · rintro ⟨hdr, rfl, htoken⟩
      exact htoken
  constructor
  · intro d
    rw [Option.some.injEq, hiff]
  · rw [Option.some.injEq, Option.eq_none_iff_forall_ne_some]
    constructor
    · rintro hnone ⟨hdr, htoken⟩
      exact hnone hdr.dcid ((hiff hdr.dcid).2 ⟨hdr, rfl, htoken⟩)
    · intro hnot d hd
      obtain ⟨hdr, -, htoken⟩ := (hiff d).1 hd
      exact hnot ⟨hdr, htoken⟩

/-! ## Two addresses -/

theorem IpAddr.sameFamily_refl (ip : IpAddr) : ip.SameFamily ip := by cases ip <;> trivial

/-- **A token at another address.** The token minted for `src` is valid at `src'` if and only
if the octets of `src'` begin the octets of `src` followed by the id; and it is valid at an
address of the family of `src` if and only if that is the same ip. -/
theorem validateToken_isSome_iff (hdr : Header) (src src' : SocketAddr) :
    ((validateToken src' (mintToken hdr src)).isSome ↔ src'.ip.octets <+: src.ip.octets ++ hdr.dcid) ∧
    ((validateToken src' (mintToken hdr src)).isSome ∧ src.ip.SameFamily src'.ip ↔
      src'.ip = src.ip) := by
  constructor
  · rw [Option.isSome_iff_exists]
    refine exists_congr fun odcid => ?_
    rw [validateToken_eq_some, mintToken, List.append_assoc, List.append_assoc,
      List.append_cancel_left_eq, eq_comm]
  · constructor
    · rintro ⟨hvalid, hfamily⟩
      obtain ⟨odcid, hodcid⟩ := Option.isSome_iff_exists.1 hvalid
      exact (ip_eq_of_validateToken hfamily (validateToken_mintToken hdr src) hodcid).symm
    · intro hip
      have hsame : validateToken src' (mintToken hdr src) = validateToken src (mintToken hdr src) := by
        unfold validateToken
        rw [hip]
      rw [hsame, validateToken_mintToken, hip]
      exact ⟨rfl, src.ip.sameFamily_refl⟩

/-- **A token of the other family**: minted for an address of 16 octets, valid at the address
of the first four; and minted for an address of four octets and an id of the client's
choice, valid at the address of 16 octets that they make up. -/
theorem validateToken_other_family :
    validateToken ⟨.v4 #v[32, 1, 13, 184], 443⟩
        (mintToken ⟨.initial, 1, [7], [], none⟩
          ⟨.v6 #v[32, 1, 13, 184, 0, 0, 0, 0, 0, 0, 0, 0, 0, 0, 0, 2], 4433⟩) =
      some [0, 0, 0, 0, 0, 0, 0, 0, 0, 0, 0, 2, 7] ∧
    validateToken ⟨.v6 #v[32, 1, 13, 184, 0, 0, 0, 0, 0, 0, 0, 0, 0, 0, 0, 2], 4433⟩
        (mintToken ⟨.initial, 1, [0, 0, 0, 0, 0, 0, 0, 0, 0, 0, 0, 2, 7], [], none⟩
          ⟨.v4 #v[32, 1, 13, 184], 443⟩) =
      some [7] ∧
    IpAddr.v4 #v[32, 1, 13, 184] ≠ .v6 #v[32, 1, 13, 184, 0, 0, 0, 0, 0, 0, 0, 0, 0, 0, 0, 2] := by
  decide

end CryptoMarket.Publisher
