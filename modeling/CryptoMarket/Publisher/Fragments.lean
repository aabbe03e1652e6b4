import CryptoMarket.Publisher.Tables

/-!
# Publisher server: commands in several chunks

`handle_sub` is called on each chunk of a stream as it is read; nothing puts a command
together that two chunks share.

* `ReadLoop`: the loop of `server_connection` over the chunks of one stream, and
  `readLoop_runs`: the connection thread runs it.
* `readLoop_eq`: the subscriptions afterwards are those of the whole payload in one call,
  for every payload that is cut only after complete commands.
* `readLoop_cut`: a cut inside a command loses it.
-/

namespace CryptoMarket.Publisher

variable {Conn : Type} {q : Quiche Conn} {ipcs : List String} {rt : Bool} {s : Server Conn}
  {cid : ConnectionId} {stream : StreamId} {c c' : Client Conn} {sub sub' : ClientSubscribe}
  {bufs : List Bytes}

/-- The loop over one readable stream: the chunks that `stream_recv` gives until it fails, and
the client and the subscriptions afterwards. -/
inductive ReadLoop (q : Quiche Conn) (cid : ConnectionId) (stream : StreamId) :
    Client Conn × ClientSubscribe → List Bytes → Client Conn × ClientSubscribe → Prop
  | stop {c : Client Conn} {sub : ClientSubscribe} {error : Error} {conn : Conn} :
      q.streamRecv c.conn stream = (.error error, conn) →
      ReadLoop q cid stream (c, sub) [] ({ c with conn }, sub)
  | chunk {c : Client Conn} {sub : ClientSubscribe} {buf : Bytes} {fin : Bool} {conn : Conn}
      {bufs : List Bytes} {st : Client Conn × ClientSubscribe} :
      q.streamRecv c.conn stream = (.ok (buf, fin), conn) →
      ReadLoop q cid stream (handleSub q stream buf cid ({ c with conn }, sub)) bufs st →
      ReadLoop q cid stream (c, sub) (buf :: bufs) st

/-! ## Subscriptions only -/

/-- The loop of `handle_sub` on the subscriptions. -/
def applyActions (cid : ConnectionId) : List String → ClientSubscribe → ClientSubscribe
  | [], sub => sub
  | action :: actions, sub =>
    match split '@' action with
    | [name, topic] => applyActions cid actions (subCommand cid name topic sub).2
    | _ => sub

theorem runActions_snd : ∀ (actions : List String) (c : Client Conn) (sub : ClientSubscribe),
    (runActions q stream cid actions (c, sub)).2 = applyActions cid actions sub := by
  intro actions
  induction actions with
  | nil => intro c sub; rfl
  | cons action actions ih =>
    intro c sub
    rcases hs : split '@' action with _ | ⟨name, _ | ⟨topic, _ | ⟨x, xs⟩⟩⟩
    · simp only [runActions, applyActions, hs]
    · simp only [runActions, applyActions, hs]
    · -- a command: the reply does not matter to the subscriptions
      simp only [runActions, applyActions, hs]
      split <;> exact ih _ _
    · simp only [runActions, applyActions, hs]

/-- What `handle_sub` does to the subscriptions. -/
def applySub (cid : ConnectionId) (buf : Bytes) (sub : ClientSubscribe) : ClientSubscribe :=
  match fromUtf8 buf with
  | none => sub
  | some actions => applyActions cid (split ';' actions) sub

theorem handleSub_snd (buf : Bytes) (c : Client Conn) (sub : ClientSubscribe) :
    (handleSub q stream buf cid (c, sub)).2 = applySub cid buf sub := by
  cases hu : fromUtf8 buf with
  | none => simp only [handleSub, applySub, hu]
  | some actions => simp only [handleSub, applySub, hu, runActions_snd]

theorem readLoop_snd {st st' : Client Conn × ClientSubscribe} (h : ReadLoop q cid stream st bufs st') :
    st'.2 = bufs.foldl (fun sub buf => applySub cid buf sub) st.2 := by
  induction h with
  | stop hr => rfl
  | chunk hr hloop ih => rw [ih, handleSub_snd, List.foldl_cons]

/-! ## Complete commands -/

/-- A command: two parts around one `@`, and no `;`. -/
def IsCommand (action : String) : Prop :=
  ';' ∉ action.toList ∧ ∃ name topic, split '@' action = [name, topic]

/-- Commands, each ended by `;`. -/
def commandText : List String → String
  | [] => ""
  | action :: actions => action ++ String.singleton ';' ++ commandText actions

/-- Every chunk but the last consists of complete commands, each ended by `;`. -/
def CutAfterCommands (bufs : List Bytes) : Prop :=
  ∀ buf ∈ bufs.dropLast, ∃ actions : List String,
    (∀ a ∈ actions, IsCommand a) ∧ buf = utf8 (commandText actions)

/-- **Complete commands first** are run first, and the rest as if they had not been there. -/
theorem applyActions_commandText (cid : ConnectionId) : ∀ (actions : List String),
    (∀ a ∈ actions, IsCommand a) → ∀ (rest : String) (sub : ClientSubscribe),
      applyActions cid (split ';' (commandText actions ++ rest)) sub =
        applyActions cid (split ';' rest) (applyActions cid actions sub) := by
  intro actions
  induction actions with
  | nil => intro _ rest sub; simp [commandText, applyActions]
  | cons action actions ih =>
    intro h rest sub
    obtain ⟨hsep, name, topic, hsplit⟩ := h action List.mem_cons_self
    have htext : commandText (action :: actions) ++ rest =
        action ++ String.singleton ';' ++ (commandText actions ++ rest) := by
      rw [commandText, String.append_assoc]
    rw [htext, split_append_sep, split_of_not_mem hsep, List.singleton_append]
    have hstep : ∀ (as : List String) (sub : ClientSubscribe), applyActions cid (action :: as) sub =
        applyActions cid as (subCommand cid name topic sub).2 := by
      intro as sub
      simp only [applyActions, hsplit]
    rw [hstep, hstep, ih fun a ha => h a (List.mem_cons_of_mem _ ha)]

theorem applyActions_empty : applyActions cid (split ';' "") sub = sub := by
  have h1 : split ';' "" = [""] := by decide
  have h2 : split '@' "" = [""] := by decide
  rw [h1]
  simp only [applyActions, h2]

theorem applySub_commandText {actions : List String} (h : ∀ a ∈ actions, IsCommand a) :
    applySub cid (utf8 (commandText actions)) sub = applyActions cid actions sub := by
  have happ := applyActions_commandText cid actions h "" sub
  rw [String.append_empty, applyActions_empty] at happ
  rw [applySub, fromUtf8_utf8]
  exact happ

/-- Chunk by chunk as in one piece. -/
theorem foldl_applySub : ∀ (bufs : List Bytes), CutAfterCommands bufs → ∀ (payload : String)
    (sub : ClientSubscribe), fromUtf8 bufs.flatten = some payload →
      bufs.foldl (fun sub buf => applySub cid buf sub) sub =
        applyActions cid (split ';' payload) sub := by
  intro bufs
  induction bufs with
  | nil =>
    intro _ payload sub h
    obtain rfl : "" = payload := Option.some.inj h
    exact applyActions_empty.symm
  | cons buf bufs ih =>
    intro hcut payload sub h
    cases bufs with
    | nil =>
      rw [List.flatten_cons, List.flatten_nil, List.append_nil] at h
      simp only [List.foldl_cons, List.foldl_nil, applySub, h]
    | cons buf' bufs =>
      obtain ⟨actions, hact, rfl⟩ := hcut buf (by simp)
      have hcut' : CutAfterCommands (buf' :: bufs) := fun b hb => hcut b (by simp [hb])
      rw [List.flatten_cons, fromUtf8_utf8_append] at h
      obtain ⟨rest, hrest, rfl⟩ := Option.map_eq_some_iff.1 h
      rw [List.foldl_cons, ih hcut' rest _ hrest, applySub_commandText hact,
        applyActions_commandText cid actions hact]

/-- **Fragmentation does not matter** for a payload that is cut only after complete commands:
the loop over the chunks ends with the subscriptions of one call on the whole. -/
theorem readLoop_eq {payload : String} (h : ReadLoop q cid stream (c, sub) bufs (c', sub'))
    (hp : bufs.flatten = utf8 payload) (hcut : CutAfterCommands bufs) :
    sub' = (handleSub q stream (utf8 payload) cid (c, sub)).2 := by
  have hloop := readLoop_snd h
  have htext : fromUtf8 bufs.flatten = some payload := by rw [hp, fromUtf8_utf8]
  rw [handleSub_snd, applySub, fromUtf8_utf8]
  exact hloop.trans (foldl_applySub bufs hcut payload sub htext)

/-! ## The connection thread -/

/-- The connection thread is in the loops over these streams, with this client and these
subscriptions; no other thread has the subscriptions. -/
structure Server.InLoop (s : Server Conn) (cid : ConnectionId) (streams : List StreamId)
    (st : Client Conn × ClientSubscribe) : Prop where
  pc : s.pc .connection = .reading cid streams
  client : s.clientList.lookup cid = some st.1
  subs : s.clientSubscribe = st.2
  others : ∀ t, t ≠ .connection → ¬ (s.pc t).Holds .clientSubscribe
  poisoned : s.poisoned .clientSubscribe = false

variable {streams : List StreamId} {st st' : Client Conn × ClientSubscribe} {p : Pc}

theorem Server.InLoop.others_goto (h : s.InLoop cid streams st) {t : Thread} (ht : t ≠ .connection) :
    ¬ ((Function.update s.pc .connection p) t).Holds .clientSubscribe := by
  rw [Function.update_of_ne ht]
  exact h.others t ht

/-- **One chunk**: `handle_sub` is called on it. -/
theorem chunk_runs {buf : Bytes} {fin : Bool} {conn : Conn} (h : s.InLoop cid (stream :: streams) (c, sub))
    (hr : q.streamRecv c.conn stream = (.ok (buf, fin), conn)) :
    ∃ ls s', Run (Step q ipcs rt) s ls s' ∧
      s'.InLoop cid (stream :: streams) (handleSub q stream buf cid ({ c with conn }, sub)) := by
  have hread : Step q ipcs rt s (.streamRecv (some buf)) _ := Step.streamRead h.pc h.client hr
  cases hu : fromUtf8 buf with
  | none =>
    have hid : handleSub q stream buf cid ({ c with conn }, sub) = ({ c with conn }, sub) := by
      simp only [handleSub, hu]
    rw [hid]
    simp only [hu] at hread
    exact ⟨_, _, Run.single hread, rfl, Finmap.lookup_insert _, h.subs, fun t ht => h.others_goto ht,
      h.poisoned⟩
  | some actions =>
    have hcommands : handleSub q stream buf cid ({ c with conn }, sub) =
        runActions q stream cid (split ';' actions) ({ c with conn }, sub) := by
      simp only [handleSub, hu]
    rw [hcommands]
    simp only [hu] at hread
    set s₁ := (s.setClient cid { c with conn }).goto .connection (.lockSub cid stream actions streams)
    set s₂ := s₁.goto .connection (.handling cid stream actions streams)
    -- the thread itself does not hold the subscriptions yet
    have hfree : s₁.Free .clientSubscribe := by
      intro t ht
      by_cases heq : t = .connection
      · subst heq
        simp [s₁, Server.goto, Pc.Holds, Pc.held] at ht
      · exact h.others_goto heq ht
    have hlock : Step q ipcs rt s₁ .lockSub _ := Step.lockSub rfl hfree
    rw [show s₁.poisoned .clientSubscribe = false from h.poisoned, if_neg (by decide)] at hlock
    have hclient : s₂.clientList.lookup cid = some { c with conn } := Finmap.lookup_insert _
    have hsub : s₂.clientSubscribe = sub := h.subs
    have hrun : runActions q stream cid (split ';' actions) ({ c with conn }, s₂.clientSubscribe) =
        runActions q stream cid (split ';' actions) ({ c with conn }, sub) := by rw [hsub]
    have hhandle : Step q ipcs rt s₂ .handle _ := Step.handle rfl hclient hrun
    refine ⟨_, _, Run.cons hread (Run.cons hlock (Run.single hhandle)), rfl, Finmap.lookup_insert _, rfl,
      fun t ht => ?_, h.poisoned⟩
    have hpc : Function.update s₂.pc .connection (.reading cid (stream :: streams)) t = s.pc t := by
      simp only [s₂, s₁, Server.goto, Server.setClient, Function.update_of_ne ht]
    show ¬ (Function.update s₂.pc .connection (.reading cid (stream :: streams)) t).Holds .clientSubscribe
    rw [hpc]
    exact h.others t ht

/-- **The connection thread runs the loop** while no other thread has the subscriptions. -/
theorem readLoop_runs (h : ReadLoop q cid stream st bufs st') : ∀ s : Server Conn,
    s.InLoop cid (stream :: streams) st →
      ∃ ls s', Run (Step q ipcs rt) s ls s' ∧ s'.InLoop cid streams st' := by
  induction h with
  | stop hr =>
    intro s hs
    exact ⟨_, _, Run.single (Step.streamEnd hs.pc hs.client hr), rfl, Finmap.lookup_insert _, hs.subs,
      fun t ht => hs.others_goto ht, hs.poisoned⟩
  | chunk hr hloop ih =>
    intro s hs
    obtain ⟨ls₁, s₁, hrun₁, hs₁⟩ := chunk_runs hs hr
    obtain ⟨ls₂, s₂, hrun₂, hs₂⟩ := ih s₁ hs₁
    exact ⟨_, s₂, hrun₁.append hrun₂, hs₂⟩

/-! ## Examples of chunks -/

/-- The replies take no chunk from the connection. -/
theorem conn_runActions_sample (accepts : Bytes → ℕ) : ∀ (actions : List String)
    (c : Client (List Bytes)) (sub : ClientSubscribe),
    (runActions (sampleQuiche accepts) stream cid actions (c, sub)).1.conn = c.conn := by
  intro actions
  induction actions with
  | nil => intro c sub; rfl
  | cons action actions ih =>
    intro c sub
    unfold runActions
    split
    · dsimp only
      split
      · exact (ih _ _).trans rfl
      · exact ih _ _
    · rfl

/-- A connection whose chunks are given. -/
theorem readLoop_sample (cid : ConnectionId) (stream : StreamId) (accepts : Bytes → ℕ) :
    ∀ (bufs : List Bytes) (c : Client (List Bytes)) (sub : ClientSubscribe), c.conn = bufs →
      ∃ st, ReadLoop (sampleQuiche accepts) cid stream (c, sub) bufs st := by
  intro bufs
  induction bufs with
  | nil =>
    intro c sub hc
    have hrecv : (sampleQuiche accepts).streamRecv c.conn stream = (.error .done, []) := by rw [hc]; rfl
    exact ⟨_, .stop hrecv⟩
  | cons buf bufs ih =>
    intro c sub hc
    have hnext : (handleSub (sampleQuiche accepts) stream buf cid ({ c with conn := bufs }, sub)).1.conn =
        bufs := by
      unfold handleSub
      split
      · rfl
      · exact conn_runActions_sample accepts _ _ _
    obtain ⟨st, hst⟩ := ih _ _ hnext
    have hrecv : (sampleQuiche accepts).streamRecv c.conn stream = (.ok (buf, false), bufs) := by
      rw [hc]; rfl
    exact ⟨st, .chunk hrecv hst⟩

/-- A table of two topics nobody is in. -/
def twoTopics : ClientSubscribe := registerTopics ["btc", "eth"] ∅

theorem cutAfterCommands_sample : CutAfterCommands [utf8 "sub@btc;", utf8 "sub@eth"] := by
  intro buf hbuf
  obtain rfl : buf = utf8 "sub@btc;" := by simpa using hbuf
  refine ⟨["sub@btc"], fun a ha => ?_, by decide⟩
  obtain rfl := List.mem_singleton.1 ha
  exact ⟨by decide, "sub", "btc", by decide⟩

/-- Two commands in two chunks, cut between them. -/
theorem readLoop_eq_sample : ∃ c' sub', ReadLoop (sampleQuiche List.length) sampleCid 0
    (⟨[utf8 "sub@btc;", utf8 "sub@eth"], ∅, []⟩, twoTopics) [utf8 "sub@btc;", utf8 "sub@eth"] (c', sub') ∧
    sub' = (handleSub (sampleQuiche List.length) 0 (utf8 "sub@btc;sub@eth") sampleCid
      (⟨[utf8 "sub@btc;", utf8 "sub@eth"], ∅, []⟩, twoTopics)).2 := by
  obtain ⟨⟨c', sub'⟩, h⟩ := readLoop_sample sampleCid 0 List.length
    [utf8 "sub@btc;", utf8 "sub@eth"] ⟨[utf8 "sub@btc;", utf8 "sub@eth"], ∅, []⟩ twoTopics rfl
  exact ⟨c', sub', h, readLoop_eq h (by decide) cutAfterCommands_sample⟩

/-- **A cut inside a command loses it**: the first chunk is no command, and neither is the
second. -/
theorem readLoop_cut : ∃ c' sub', ReadLoop (sampleQuiche List.length) sampleCid 0
    (⟨[utf8 "su", utf8 "b@btc"], ∅, []⟩, twoTopics) [utf8 "su", utf8 "b@btc"] (c', sub') ∧
    [utf8 "su", utf8 "b@btc"].flatten = utf8 "sub@btc" ∧
    sub' ≠ (handleSub (sampleQuiche List.length) 0 (utf8 "sub@btc") sampleCid
      (⟨[utf8 "su", utf8 "b@btc"], ∅, []⟩, twoTopics)).2 := by
  obtain ⟨⟨c', sub'⟩, h⟩ := readLoop_sample sampleCid 0 List.length
    [utf8 "su", utf8 "b@btc"] ⟨[utf8 "su", utf8 "b@btc"], ∅, []⟩ twoTopics rfl
  refine ⟨c', sub', h, by decide, ?_⟩
  have hloop : sub' =
      [utf8 "su", utf8 "b@btc"].foldl (fun sub buf => applySub sampleCid buf sub) twoTopics :=
    readLoop_snd h
  rw [hloop, handleSub_snd]
  intro heq
  have := congrArg (fun sub => sub.lookup "btc") heq
  revert this
  decide

end CryptoMarket.Publisher
