import CryptoMarket.Publisher.Streams

/-!
# Publisher server: resumed writes

`handle_writable` on streams with a partial response, called again and again with the
connections in any states. (No function of the server stores a partial response; this is
what the resumption does if there is one.)

* `handleWritable_resumes`: one call offers the rest of the body and counts what is accepted.
* `resumeWrites_resumes`: over any calls the bytes accepted on a stream are a stretch of its
  body from where it stood, and the entry goes when the body ends or the stream fails.
-/

namespace CryptoMarket.Publisher

variable {Conn : Type} {q : Quiche Conn} {client : Client Conn} {stream : StreamId}
  {resp resp' : PartialResponse} {ws ws' : List Write} {written : ℕ} {entry : Option PartialResponse}

/-- A call of `handle_writable` on a stream, with the state of the connection then. -/
structure WritableCall (Conn : Type) where
  conn : Conn
  stream : StreamId

/-- The calls one after the other. -/
def resumeWrites (q : Quiche Conn) (calls : List (WritableCall Conn)) (client : Client Conn) :
    Option (Client Conn) :=
  calls.foldlM (fun client call => handleWritable q { client with conn := call.conn } call.stream) client

/-- The writes on a stream. -/
def writesOn (stream : StreamId) (ws : List Write) : List Write := ws.filter (·.stream = stream)

/-- The transport answers with an error other than `Done`. -/
def Write.Fails (w : Write) : Prop := ∃ name, w.answer = .error (.other name)

/-- **A resumed response.** The writes on its stream, at least one, have brought it to
`written`, and its entry is gone if that is the end or one of them failed. -/
structure Resumed (resp : PartialResponse) (ws : List Write) (written : ℕ)
    (entry : Option PartialResponse) : Prop where
  called : ws ≠ []
  fin : ∀ w ∈ ws, w.fin = true
  range : resp.written ≤ written ∧ written ≤ resp.body.length
  bytes : ws.flatMap Write.accepted = (resp.body.take written).drop resp.written
  gone : entry = none ↔ written = resp.body.length ∨ ∃ w ∈ ws, w.Fails
  kept : ∀ resp', entry = some resp' → resp' = { resp with written }

/-! ## One call -/

/-- The entry of a stream after a write is counted. -/
theorem lookup_finish (m : HashMap StreamId PartialResponse) (stream s : StreamId) (resp : PartialResponse)
    (written : ℕ) :
    Finmap.lookup s (if written = resp.body.length then m.erase stream
        else m.insert stream { resp with written }) =
      if s = stream then (if written = resp.body.length then none else some { resp with written })
      else m.lookup s := by
  by_cases hs : s = stream
  · subst hs
    rw [if_pos rfl]
    split
    · exact Finmap.lookup_erase s m
    · exact Finmap.lookup_insert m
  · rw [if_neg hs]
    split
    · exact Finmap.lookup_erase_ne hs
    · exact Finmap.lookup_insert_of_ne m hs

/-- A write that the transport takes `n` bytes of. -/
theorem resumed_single {w : Write} {n : ℕ} (hle : resp.written + n ≤ resp.body.length) (hfin : w.fin = true)
    (haccepted : w.accepted = (resp.body.drop resp.written).take n) (hok : ¬ w.Fails) :
    Resumed resp [w] (resp.written + n)
      (if resp.written + n = resp.body.length then none
        else some { resp with written := resp.written + n }) where
  called := List.cons_ne_nil _ _
  fin := by simpa using hfin
  range := ⟨Nat.le_add_right _ _, hle⟩
  bytes := by
    rw [List.flatMap_cons, List.flatMap_nil, List.append_nil, haccepted, List.drop_take,
      Nat.add_sub_cancel_left]
  gone := by
    have hnone : ¬ ∃ w' ∈ [w], w'.Fails := by simpa using hok
    rw [or_iff_left hnone]
    split
    · next heq => exact iff_of_true rfl heq
    · next hne => exact iff_of_false (by simp) hne
  kept resp' h := by
    split at h
    · cases h
    · exact (Option.some.inj h).symm

/-- **One call** on a stream with a partial response: the slice is in range, one write, and
the entries of the other streams stay. -/
theorem handleWritable_resumes (hq : q.AcceptsPrefix) (hresp : client.partialResponses.lookup stream = some resp)
    (hle : resp.written ≤ resp.body.length) :
    ∃ client' w written, handleWritable q client stream = some client' ∧
      client'.writes = client.writes ++ [w] ∧ w.stream = stream ∧
      Resumed resp [w] written (client'.partialResponses.lookup stream) ∧
      ∀ s, s ≠ stream → client'.partialResponses.lookup s = client.partialResponses.lookup s := by
  have hprefix := hq client.conn stream (resp.body.drop resp.written) true
  have hlen : (resp.body.drop resp.written).length = resp.body.length - resp.written :=
    List.length_drop
  have hwrite : ∀ data, client.streamSend q stream data true =
      ((q.streamSend client.conn stream data true).1, { client with
        conn := (q.streamSend client.conn stream data true).2
        writes := client.writes ++ [⟨stream, data, true, (q.streamSend client.conn stream data true).1⟩] }) :=
    fun _ => rfl
  unfold handleWritable
  simp only [hresp, if_neg (Nat.not_lt.2 hle), hwrite]
  obtain ⟨⟨answer, conn'⟩, hsend⟩ :
    ∃ r, q.streamSend client.conn stream (resp.body.drop resp.written) true = r := ⟨_, rfl⟩
  rw [hsend] at hprefix ⊢
  match answer with
  | .ok n =>
    have hn : n ≤ resp.body.length - resp.written := hlen ▸ hprefix n rfl
    refine ⟨_, _, resp.written + n, rfl, rfl, rfl, ?_, fun s hs => ?_⟩
    · dsimp only
      rw [lookup_finish, if_pos rfl]
      exact resumed_single (by omega) rfl rfl (by rintro ⟨name, h⟩; cases h)
    · dsimp only
      rw [lookup_finish, if_neg hs]
  | .error .done =>
    refine ⟨_, _, resp.written + 0, rfl, rfl, rfl, ?_, fun s hs => ?_⟩
    · dsimp only
      rw [lookup_finish, if_pos rfl]
      exact resumed_single hle rfl (List.take_zero).symm (by rintro ⟨name, h⟩; cases h)
    · dsimp only
      rw [lookup_finish, if_neg hs]
  | .error (.other name) =>
    refine ⟨_, _, resp.written, rfl, rfl, rfl, ⟨List.cons_ne_nil _ _, ?_, ⟨Nat.le_refl _, hle⟩, ?_, ?_, ?_⟩,
      fun s hs => Finmap.lookup_erase_ne hs⟩
    · simp
    · simp [Write.accepted]
    · rw [Finmap.lookup_erase]
      exact iff_of_true rfl (Or.inr ⟨_, List.mem_singleton_self _, name, rfl⟩)
    · intro resp' h
      rw [Finmap.lookup_erase] at h
      cases h

/-! ## Many calls -/

/-- Two adjacent stretches of a list. -/
theorem drop_take_append_drop_take {α : Type*} (l : List α) {a b c : ℕ} (hab : a ≤ b) (hbc : b ≤ c) :
    (l.take b).drop a ++ (l.take c).drop b = (l.take c).drop a := by
  have hfirst : (l.take b).drop a = ((l.take c).drop a).take (b - a) := by
    rw [List.take_drop, List.take_take, Nat.add_sub_cancel' hab, Nat.min_eq_left hbc]
  have hsecond : (l.take c).drop b = ((l.take c).drop a).drop (b - a) := by
    rw [List.drop_drop, Nat.add_sub_cancel' hab]
  rw [hfirst, hsecond, List.take_append_drop]

/-- **What is kept is resumed** from where it stands. -/
theorem Resumed.trans {written written' : ℕ} (h : Resumed resp ws written (some resp'))
    (h' : Resumed resp' ws' written' entry) : Resumed resp (ws ++ ws') written' entry := by
  obtain rfl := h.kept resp' rfl
  obtain ⟨hr₁, hr₂⟩ := h.range
  obtain ⟨hr₁', hr₂'⟩ := h'.range
  dsimp only at hr₁' hr₂'
  have hbefore : ¬ ∃ w ∈ ws, w.Fails := fun hfails => by
    have := h.gone.2 (Or.inr hfails)
    cases this
  refine ⟨by simp [h.called], ?_, ⟨hr₁.trans hr₁', hr₂'⟩, ?_, ?_, h'.kept⟩
  · intro w hw
    exact (List.mem_append.1 hw).elim (h.fin w) (h'.fin w)
  · rw [List.flatMap_append, h.bytes, h'.bytes]
    exact drop_take_append_drop_take resp.body hr₁ hr₁'
  · rw [h'.gone]
    dsimp only
    refine or_congr_right ?_
    simp only [List.mem_append, or_and_right, exists_or]
    rw [or_iff_right hbefore]

/-- **Where a stream stands** after some calls: as at the start, without a response or not
called; or resumed. -/
def Stands (calls : List (WritableCall Conn)) (start now : Option PartialResponse) (ws : List Write)
    (s : StreamId) : Prop :=
  (now = start ∧ ws = [] ∧ (start = none ∨ ∀ call ∈ calls, call.stream ≠ s)) ∨
    ∃ resp written, start = some resp ∧ (∃ call ∈ calls, call.stream = s) ∧ Resumed resp ws written now

section

variable {calls : List (WritableCall Conn)} {call : WritableCall Conn}
  {start now : Option PartialResponse} {s : StreamId}

theorem Stands.other (h : Stands calls start now ws s) (hs : call.stream ≠ s) :
    Stands (calls ++ [call]) start now ws s := by
  rcases h with ⟨hnow, hws, hstart⟩ | ⟨resp, written, hstart, ⟨c, hc, hcs⟩, hres⟩
  · refine Or.inl ⟨hnow, hws, hstart.imp_right fun h c hc => ?_⟩
    rcases List.mem_append.1 hc with hc | hc
    · exact h c hc
    · rwa [List.mem_singleton.1 hc]
  · exact Or.inr ⟨resp, written, hstart, ⟨c, List.mem_append_left _ hc, hcs⟩, hres⟩

/-- A call without a response on its stream does nothing. -/
theorem Stands.idle (h : Stands calls start none ws s) : Stands (calls ++ [call]) start none ws s := by
  rcases h with ⟨hnow, hws, -⟩ | ⟨resp, written, hstart, ⟨c, hc, hcs⟩, hres⟩
  · exact Or.inl ⟨hnow, hws, Or.inl hnow.symm⟩
  · exact Or.inr ⟨resp, written, hstart, ⟨c, List.mem_append_left _ hc, hcs⟩, hres⟩

/-- A call on a stream with a response resumes it. -/
theorem Stands.next {written : ℕ} (h : Stands calls start (some resp) ws call.stream)
    (hres : Resumed resp ws' written now) :
    Stands (calls ++ [call]) start now (ws ++ ws') call.stream := by
  have hcalled : ∃ c ∈ calls ++ [call], c.stream = call.stream := ⟨call, by simp, rfl⟩
  rcases h with ⟨hnow, rfl, -⟩ | ⟨resp₀, written₀, hstart, -, hres₀⟩
  · exact Or.inr ⟨resp, written, hnow.symm, hcalled, hres⟩
  · exact Or.inr ⟨resp₀, written, hstart, hcalled, hres₀.trans hres⟩

/-- The response stands within its body. -/
theorem Stands.range (h : Stands calls start (some resp) ws s)
    (hstart : ∀ resp, start = some resp → resp.written ≤ resp.body.length) :
    resp.written ≤ resp.body.length := by
  rcases h with ⟨hnow, -, -⟩ | ⟨resp₀, written, -, -, hres⟩
  · exact hstart resp hnow.symm
  · rw [hres.kept resp rfl]
    exact hres.range.2

end

theorem writesOn_append (s : StreamId) (ws : List Write) {w : Write} :
    writesOn s (ws ++ [w]) = if w.stream = s then writesOn s ws ++ [w] else writesOn s ws := by
  unfold writesOn
  rw [List.filter_append]
  by_cases h : w.stream = s <;> simp [h]

theorem resumeWrites_append (q : Quiche Conn) (calls : List (WritableCall Conn)) (call : WritableCall Conn)
    (client : Client Conn) :
    resumeWrites q (calls ++ [call]) client = (resumeWrites q calls client).bind fun client =>
      handleWritable q { client with conn := call.conn } call.stream := by
  unfold resumeWrites
  rw [List.foldlM_append]
  refine congrArg (Option.bind _) (funext fun client => ?_)
  exact bind_pure (m := Option) _

/-- **A run of calls**, the last one split off. -/
theorem stands_resumeWrites (hq : q.AcceptsPrefix) (calls : List (WritableCall Conn))
    (client : Client Conn) (hrange : ∀ call ∈ calls, ∀ resp,
      client.partialResponses.lookup call.stream = some resp → resp.written ≤ resp.body.length) :
    ∃ client' ws, resumeWrites q calls client = some client' ∧ client'.writes = client.writes ++ ws ∧
      ∀ s, Stands calls (client.partialResponses.lookup s) (client'.partialResponses.lookup s)
        (writesOn s ws) s := by
  induction calls using List.reverseRecOn with
  | nil => exact ⟨client, [], rfl, by simp, fun s => Or.inl ⟨rfl, rfl, Or.inr (by simp)⟩⟩
  | append_singleton calls call ih =>
    obtain ⟨client₁, ws, hrun, hws, hstands⟩ := ih fun c hc => hrange c (List.mem_append_left _ hc)
    have hthis := hstands call.stream
    rw [resumeWrites_append, hrun, Option.bind_some]
    cases hentry : client₁.partialResponses.lookup call.stream with
    | none =>
      have hidle : handleWritable q { client₁ with conn := call.conn } call.stream =
          some { client₁ with conn := call.conn } := by
        simp only [handleWritable, hentry]
      refine ⟨_, ws, hidle, hws, fun s => ?_⟩
      by_cases hs : call.stream = s
      · subst hs
        rw [hentry] at hthis ⊢
        exact hthis.idle
      · exact (hstands s).other hs
    | some resp =>
      rw [hentry] at hthis
      have hle : resp.written ≤ resp.body.length := hthis.range (hrange call (by simp))
      have hlookup : ({ client₁ with conn := call.conn } : Client Conn).partialResponses.lookup
          call.stream = some resp := hentry
      obtain ⟨client', w, written, hcall, hw, hwstream, hres, hothers⟩ :=
        handleWritable_resumes hq hlookup hle
      refine ⟨client', ws ++ [w], hcall, by rw [hw, hws, List.append_assoc], fun s => ?_⟩
      rw [writesOn_append, hwstream]
      by_cases hs : call.stream = s
      · subst hs
        rw [if_pos rfl]
        exact hthis.next hres
      · rw [if_neg hs, hothers s (Ne.symm hs)]
        exact (hstands s).other hs

/-- **Resumed writes.** For every run of calls, in any states of the connection and with any
answers of the transport, on streams whose responses stand within their bodies: every slice
is in range; on each stream with a response that is called, the bytes accepted are the
stretch of the body from where it stood to where it stands, and the entry is gone exactly
when that is the end of the body or a write failed; the entries of the other streams are
unchanged. -/
theorem resumeWrites_resumes (hq : q.AcceptsPrefix) (calls : List (WritableCall Conn))
    (client : Client Conn) (hrange : ∀ call ∈ calls, ∀ resp,
      client.partialResponses.lookup call.stream = some resp → resp.written ≤ resp.body.length) :
    ∃ client' ws, resumeWrites q calls client = some client' ∧ client'.writes = client.writes ++ ws ∧
      (∀ call ∈ calls, ∀ resp, client.partialResponses.lookup call.stream = some resp →
        ∃ written, Resumed resp (writesOn call.stream ws) written
          (client'.partialResponses.lookup call.stream)) ∧
      ∀ s, (∀ call ∈ calls, call.stream ≠ s) →
        client'.partialResponses.lookup s = client.partialResponses.lookup s ∧ writesOn s ws = [] := by
  obtain ⟨client', ws, hrun, hws, hstands⟩ := stands_resumeWrites hq calls client hrange
  refine ⟨client', ws, hrun, hws, fun call hcall resp hresp => ?_, fun s hs => ?_⟩
  · rcases hstands call.stream with ⟨-, -, hnone | hnot⟩ | ⟨resp', written, hstart, -, hres⟩
    · rw [hresp] at hnone
      cases hnone
    · exact absurd rfl (hnot call hcall)
    · rw [hresp] at hstart
      obtain rfl := Option.some.inj hstart
      exact ⟨written, hres⟩
  · rcases hstands s with ⟨hnow, hnil, -⟩ | ⟨resp, written, -, ⟨call, hcall, hcs⟩, -⟩
    · exact ⟨hnow, hnil⟩
    · exact absurd hcs (hs call hcall)

/-- A transport that takes two bytes at a time. -/
def twoBytes : Quiche (List Bytes) := sampleQuiche fun data => min 2 data.length

/-- A client with a response of five bytes, of which one is written. -/
def clientWithResponse : Client (List Bytes) :=
  ⟨[], (∅ : HashMap StreamId PartialResponse).insert 4 ⟨[1, 2, 3, 4, 5], 1⟩, []⟩

/-- Two calls on its stream resume it. -/
theorem resumeWrites_twoBytes : ∃ client' ws written,
    resumeWrites twoBytes [⟨[], 4⟩, ⟨[], 4⟩] clientWithResponse = some client' ∧
    client'.writes = ws ∧
    Resumed ⟨[1, 2, 3, 4, 5], 1⟩ (writesOn 4 ws) written (client'.partialResponses.lookup 4) := by
  have hq : twoBytes.AcceptsPrefix := by
    intro conn stream data fin n h
    rw [← Except.ok.inj h]
    exact Nat.min_le_right _ _
  have hlookup : clientWithResponse.partialResponses.lookup 4 = some ⟨[1, 2, 3, 4, 5], 1⟩ :=
    Finmap.lookup_insert _
  obtain ⟨client', ws, hrun, hws, hresumed, -⟩ :=
    resumeWrites_resumes hq [⟨[], 4⟩, ⟨[], 4⟩] clientWithResponse fun call hcall resp hresp => by
      have hstream : call.stream = 4 := by
        simp only [List.mem_cons, List.not_mem_nil, or_false, or_self] at hcall
        rw [hcall]
      rw [hstream, hlookup] at hresp
      rw [← Option.some.inj hresp]
      decide
  obtain ⟨written, hres⟩ := hresumed ⟨[], 4⟩ List.mem_cons_self _ hlookup
  exact ⟨client', ws, written, hrun, hws, hres⟩

end CryptoMarket.Publisher
